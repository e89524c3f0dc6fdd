import SqlServerMcp.FmtonlyDump

/-!
Tables as they stand in the dump of result columns: a line of names over a line of
dashes, every column as wide as its dashes. The generator reads the names as the
words of their line, so the widths count for nothing and a blank within a name
ends a word.
-/
namespace SqlServerMcp.FixedWidthHeaders

open AssocMap FmtonlyDump MarkedBlocks Text

structure Column where
  name : String
  width : ℕ
  wide : 0 < width

namespace Column

variable (c : Column)

/-- The part of the name that the width has room for. -/
def shown : List Char := c.name.toList.take c.width

def cell : List Char := padRight ' ' c.width c.shown

def dashes : List Char := List.replicate c.width '-'

end Column

def headerLine (columns : List Column) : List Char := [' '].intercalate (columns.map Column.cell)

def separatorLine (columns : List Column) : List Char :=
  [' '].intercalate (columns.map Column.dashes)

section Words

def IsWord (w : List Char) : Prop := w ≠ [] ∧ ∀ c ∈ w, isSpace c = false

theorem words_append_space (a b : List Char) {c : Char} (hc : isSpace c = true) :
    words (a ++ c :: b) = words a ++ words b := by
  unfold words
  rw [List.splitOnP_append_cons a b hc, List.filter_append]

theorem words_of_isWord {w : List Char} (h : IsWord w) : words w = [w] := by
  unfold words
  rw [List.splitOnP_eq_singleton h.2, List.filter_singleton]
  simp [h.1]

theorem words_pad (w : List Char) (n : ℕ) : words (w ++ List.replicate n ' ') = words w := by
  induction n with
  | zero => rw [List.replicate_zero, List.append_nil]
  | succ n ih =>
    rw [List.replicate_succ', ← List.append_assoc, words_append_space _ [] (by decide), ih]
    exact List.append_nil _

theorem words_rstrip (l : List Char) : words (rstrip l) = words l := by
  induction l using List.reverseRecOn with
  | nil => rfl
  | append_singleton l c ih =>
    unfold rstrip at ih ⊢
    rw [List.rdropWhile_concat]
    split
    · rename_i hc
      rw [ih, words_append_space l [] hc]
      exact (List.append_nil _).symm
    · rfl

theorem words_dropWhile (l : List Char) : words (l.dropWhile isSpace) = words l := by
  induction l with
  | nil => rfl
  | cons c l ih =>
    rw [List.dropWhile_cons]
    split
    · rename_i hc
      rw [ih, ← List.nil_append (c :: l), words_append_space [] l hc]
      rfl
    · rfl

/-- Blanks at the ends are no part of a word. -/
theorem words_strip (l : List Char) : words (strip l) = words l := by
  rw [strip, words_dropWhile, words_rstrip]

theorem strip_rstrip (l : List Char) : strip (rstrip l) = strip l := by
  rw [strip, rstrip, rstrip, List.rdropWhile_idempotent]
  rfl

theorem isWord_of_mem_words {l w : List Char} (h : w ∈ words l) : IsWord w := by
  obtain ⟨hmem, hne⟩ := List.mem_filter.mp h
  refine ⟨of_decide_eq_true hne, ?_⟩
  clear h hne
  induction l generalizing w with
  | nil =>
    rw [List.splitOnP_nil, List.mem_singleton] at hmem
    rw [hmem]
    intro c hc
    contradiction
  | cons d l ih =>
    rw [List.splitOnP_cons_eq_if_modifyHead] at hmem
    split at hmem
    · rcases List.mem_cons.mp hmem with rfl | hrest
      · intro c hc
        contradiction
      · exact ih hrest
    · rename_i hd
      obtain ⟨first, rest, hsplit⟩ := List.exists_cons_of_ne_nil (List.splitOnP_ne_nil isSpace l)
      rw [hsplit, List.modifyHead_cons] at hmem
      rcases List.mem_cons.mp hmem with rfl | hrest
      · intro c hc
        rcases List.mem_cons.mp hc with rfl | hfirst
        · exact Bool.eq_false_iff.mpr hd
        · exact ih (hsplit ▸ List.mem_cons_self) c hfirst
      · exact ih (hsplit ▸ List.mem_cons_of_mem _ hrest)

end Words

section Lines

theorem headerLine_singleton (c : Column) : headerLine [c] = c.cell := by
  rw [headerLine, List.map_singleton, List.intercalate_singleton]

theorem headerLine_cons_cons (c d : Column) (rest : List Column) :
    headerLine (c :: d :: rest) = c.cell ++ ' ' :: headerLine (d :: rest) := by
  unfold headerLine
  rw [List.map_cons, List.map_cons, List.intercalate_cons_cons, List.append_assoc]
  rfl

/-- Names of one word each are read as far as their widths show them. -/
theorem words_headerLine {columns : List Column} (h : ∀ c ∈ columns, IsWord c.shown) :
    words (headerLine columns) = columns.map Column.shown := by
  induction columns with
  | nil => rfl
  | cons c rest ih =>
    have hcell : words c.cell = [c.shown] := by
      rw [Column.cell, padRight, words_pad, words_of_isWord (h c List.mem_cons_self)]
    cases rest with
    | nil =>
      rw [headerLine_singleton]
      exact hcell
    | cons d rest =>
      have hrest := ih fun e he => h e (List.mem_cons_of_mem c he)
      rw [headerLine_cons_cons, words_append_space _ _ (by decide), hcell, hrest]
      rfl

theorem separatorLine_singleton (c : Column) : separatorLine [c] = c.dashes := by
  rw [separatorLine, List.map_singleton, List.intercalate_singleton]

theorem separatorLine_cons_cons (c d : Column) (rest : List Column) :
    separatorLine (c :: d :: rest) = c.dashes ++ ' ' :: separatorLine (d :: rest) := by
  unfold separatorLine
  rw [List.map_cons, List.map_cons, List.intercalate_cons_cons, List.append_assoc]
  rfl

theorem mem_separatorLine {columns : List Column} {ch : Char} (h : ch ∈ separatorLine columns) :
    ch = '-' ∨ ch = ' ' := by
  induction columns with
  | nil => contradiction
  | cons c rest ih =>
    cases rest with
    | nil =>
      rw [separatorLine_singleton] at h
      exact Or.inl (List.eq_of_mem_replicate h)
    | cons d rest =>
      rw [separatorLine_cons_cons, List.mem_append, List.mem_cons] at h
      obtain hdash | hblank | hrest := h
      · exact Or.inl (List.eq_of_mem_replicate hdash)
      · exact Or.inr hblank
      · exact ih hrest

theorem head_separatorLine {columns : List Column} (h : columns ≠ []) :
    (separatorLine columns).head? = some '-' := by
  obtain ⟨c, rest, rfl⟩ := List.exists_cons_of_ne_nil h
  have hdashes : c.dashes.head? = some '-' := by
    obtain ⟨n, hn⟩ : ∃ n, c.width = n + 1 := ⟨c.width - 1, by have := c.wide; omega⟩
    rw [Column.dashes, hn, List.replicate_succ, List.head?_cons]
  cases rest with
  | nil =>
    rw [separatorLine_singleton]
    exact hdashes
  | cons d rest => rw [separatorLine_cons_cons, List.head?_append, hdashes, Option.some_or]

theorem getLast_separatorLine {columns : List Column} (h : columns ≠ []) :
    (separatorLine columns).getLast? = some '-' := by
  induction columns with
  | nil => contradiction
  | cons c rest ih =>
    cases rest with
    | nil =>
      obtain ⟨n, hn⟩ : ∃ n, c.width = n + 1 := ⟨c.width - 1, by have := c.wide; omega⟩
      rw [separatorLine_singleton, Column.dashes, hn, List.replicate_succ', List.getLast?_concat]
    | cons d rest =>
      have hrest := ih (List.cons_ne_nil d rest)
      rw [separatorLine_cons_cons, List.getLast?_append, List.getLast?_cons, hrest]
      rfl

theorem isSeparator_separatorLine {columns : List Column} (h : columns ≠ []) :
    isSeparator (separatorLine columns) = true := by
  rw [isSeparator, head_separatorLine h, getLast_separatorLine h, Bool.and_eq_true,
    Bool.and_eq_true, List.all_eq_true]
  refine ⟨⟨?_, by decide⟩, by decide⟩
  intro ch hch
  rcases mem_separatorLine hch with rfl | rfl <;> decide

theorem strip_separatorLine {columns : List Column} (h : columns ≠ []) :
    rstrip (separatorLine columns) = separatorLine columns ∧
      strip (separatorLine columns) = separatorLine columns :=
  ⟨rstrip_eq_self (getLast_separatorLine h) (by decide),
    strip_eq_self (head_separatorLine h) (getLast_separatorLine h) (by decide) (by decide)⟩

theorem dropPrefix_eq_none_of_head {pre l : List Char} {c d : Char} (hpre : pre.head? = some c)
    (hl : l.head? = some d) (hne : c ≠ d) : dropPrefix pre l = none := by
  cases hdrop : dropPrefix pre l with
  | none => rfl
  | some rest =>
    rw [dropPrefix_eq_some hdrop, List.head?_append, hpre, Option.some_or] at hl
    exact absurd (Option.some.inj hl) hne

/-- A line of dashes is neither an error nor a marker. -/
theorem separatorLine_plain {columns : List Column} (h : columns ≠ []) :
    dropPrefix errorStart (separatorLine columns) = none ∧
      markerKey (separatorLine columns) = none := by
  refine ⟨dropPrefix_eq_none_of_head rfl (head_separatorLine h) (by decide), ?_⟩
  have hstart : dropPrefix markerStart (separatorLine columns) = none :=
    dropPrefix_eq_none_of_head rfl (head_separatorLine h) (by decide)
  rw [markerKey, (strip_separatorLine h).2, parseMarker, hstart]
  rfl

end Lines

structure Table where
  columns : List Column
  nonempty : columns ≠ []

namespace Table

variable (t : Table)

def header : List Char := headerLine t.columns

def separator : List Char := separatorLine t.columns

def names : List String := t.columns.map Column.name

end Table

/-- A dump around one block: the marker of an object that does not come again, the
lines before it, and those from the next marker on. -/
structure Block where
  before : List (List Char)
  marker : List Char
  key : String × String
  after : List (List Char)
  one_line : ∀ l ∈ before ++ marker :: after, OneLine l
  recognized : markerKey (rstrip marker) = some key
  next : ∀ l, after.head? = some l → (markerKey (rstrip l)).isSome = true
  last : ∀ l ∈ after, markerKey (rstrip l) ≠ some key

/-- The text of a dump whose block is the table. -/
def dumpText (crlf : Bool) (b : Block) (t : Table) : List Char :=
  (b.before ++ b.marker :: t.header :: t.separator :: b.after).flatMap fun line =>
    line ++ lineEnd crlf

/-- The names are words that their columns have room for, and their line looks
like nothing else. -/
structure Recoverable (t : Table) : Prop where
  words : ∀ c ∈ t.columns, IsWord c.name.toList
  fits : ∀ c ∈ t.columns, c.name.length ≤ c.width
  no_marker : markerKey t.header = none
  no_error : dropPrefix errorStart (strip t.header) = none

section Reading

theorem readBlock_table {header : List Char} (t : Table)
    (herror : dropPrefix errorStart (strip header) = none) (hwords : words header ≠ []) :
    readBlock [rstrip header, t.separator] =
      ⟨some ((words header).map String.ofList), none⟩ := by
  have hseparator := strip_separatorLine t.nonempty
  have hplain := separatorLine_plain t.nonempty
  have hstrip : strip header ≠ [] := by
    intro hempty
    rw [← words_strip, hempty] at hwords
    exact hwords rfl
  simp only [readBlock, scanBlock, strip_rstrip, herror, Table.separator, hseparator.2, hplain.1,
    isSeparator_separatorLine t.nonempty, if_true, hstrip, if_false, words_strip]

theorem readBlock_error {header message : List Char} (t : Table)
    (herror : dropPrefix errorStart (strip header) = some message) :
    (readBlock [rstrip header, t.separator]).columns = none := by
  simp only [readBlock, scanBlock, strip_rstrip, herror]

theorem readBlock_separator (t : Table) : readBlock [t.separator] = ⟨none, none⟩ := by
  simp only [readBlock, scanBlock, Table.separator, (strip_separatorLine t.nonempty).2,
    (separatorLine_plain t.nonempty).1]

/-- What is read as columns are words. -/
theorem isWord_of_scanBlock {lines : List (List Char)} {previous : Option (List Char)}
    {columns : List String} {error : Option String}
    (h : scanBlock previous lines = ⟨some columns, error⟩) :
    ∀ name ∈ columns, IsWord name.toList := by
  induction lines generalizing previous with
  | nil =>
    have hcolumns := congrArg Entry.columns h
    contradiction
  | cons line rest ih =>
    unfold scanBlock at h
    dsimp only at h
    split at h
    · have hcolumns := congrArg Entry.columns h
      contradiction
    · exact ih h
    · split at h
      · have hcolumns := congrArg Entry.columns h
        dsimp only at hcolumns
        split at hcolumns
        · contradiction
        · intro name hname
          rw [← Option.some.inj hcolumns] at hname
          obtain ⟨w, hw, rfl⟩ := List.mem_map.mp hname
          rw [String.toList_ofList]
          exact isWord_of_mem_words hw
      · exact ih h

theorem isWord_of_get {text : List Char} {key : String × String} {columns : List String}
    {error : Option String}
    (h : (loadFmtonlyDump text).get key = some ⟨some columns, error⟩) :
    ∀ name ∈ columns, IsWord name.toList := by
  obtain ⟨body, hbody⟩ := exists_body_of_get h
  exact isWord_of_scanBlock hbody.symm

end Reading

section Blocks

variable (crlf : Bool) (b : Block) (t : Table)

theorem notMem_headerLine {columns : List Column} {ch : Char} (hch : ch ≠ ' ')
    (h : ∀ c ∈ columns, ch ∉ c.name.toList) : ch ∉ headerLine columns := by
  have hcell : ∀ c ∈ columns, ch ∉ c.cell := by
    intro c hc hmem
    rcases List.mem_append.mp hmem with hshown | hpad
    · exact h c hc (List.mem_of_mem_take hshown)
    · exact hch (List.eq_of_mem_replicate hpad)
  induction columns with
  | nil => exact List.not_mem_nil
  | cons c rest ih =>
    have hfirst := hcell c List.mem_cons_self
    cases rest with
    | nil =>
      rw [headerLine_singleton]
      exact hfirst
    | cons d rest =>
      have hrest := ih (fun e he => h e (List.mem_cons_of_mem c he))
        fun e he => hcell e (List.mem_cons_of_mem c he)
      rw [headerLine_cons_cons, List.mem_append, List.mem_cons]
      intro h'
      obtain hc | hblank | hlater := h'
      · exact hfirst hc
      · exact hch hblank
      · exact hrest hlater

theorem oneLine_headerLine {columns : List Column}
    (h : ∀ c ∈ columns, IsWord c.name.toList) : OneLine (headerLine columns) := by
  have hnames : ∀ ch, isSpace ch = true → ∀ c ∈ columns, ch ∉ c.name.toList := by
    intro ch hch c hc hmem
    rw [(h c hc).2 ch hmem] at hch
    contradiction
  exact ⟨notMem_headerLine (by decide) (hnames '\n' (by decide)),
    notMem_headerLine (by decide) (hnames '\r' (by decide))⟩

theorem oneLine_separatorLine (columns : List Column) : OneLine (separatorLine columns) := by
  constructor <;> intro h <;> rcases mem_separatorLine h with heq | heq <;> contradiction

theorem dumpLines_dumpText (h : OneLine t.header) :
    dumpLines (dumpText crlf b t) =
      b.before.map rstrip ++ rstrip b.marker :: rstrip t.header :: t.separator ::
        b.after.map rstrip ++ [[]] := by
  have hlines : ∀ l ∈ b.before ++ b.marker :: t.header :: t.separator :: b.after, OneLine l := by
    intro l hl
    simp only [List.mem_append, List.mem_cons] at hl
    obtain hbefore | rfl | rfl | rfl | hafter := hl
    · exact b.one_line l (List.mem_append_left _ hbefore)
    · exact b.one_line _ (List.mem_append_right _ List.mem_cons_self)
    · exact h
    · exact oneLine_separatorLine t.columns
    · exact b.one_line l (List.mem_append_right _ (List.mem_cons_of_mem _ hafter))
  rw [dumpText, dumpLines_flatMap crlf hlines, List.map_append, List.map_cons, List.map_cons,
    List.map_cons, Table.separator, (strip_separatorLine t.nonempty).1]

/-- From the next marker on, nothing belongs to the block. -/
theorem takeWhile_after :
    ((b.after.map rstrip).takeWhile fun l => (markerKey l).isNone) = [] := by
  cases hafter : b.after with
  | nil => rfl
  | cons l rest =>
    have hnext := b.next l (by rw [hafter]; rfl)
    rw [List.map_cons, List.takeWhile_cons, if_neg]
    rw [Option.isSome_iff_ne_none] at hnext
    simpa using hnext

theorem markerKey_rstrip (l : List Char) : markerKey (rstrip l) = markerKey l := by
  rw [markerKey, markerKey, strip_rstrip]

theorem get_dumpText (h : OneLine t.header) :
    (loadFmtonlyDump (dumpText crlf b t)).get b.key =
      some (if markerKey t.header = none then readBlock [rstrip t.header, t.separator]
        else ⟨none, none⟩) := by
  have hafter : ∀ l ∈ b.after.map rstrip, markerKey l ≠ some b.key := by
    intro l hl
    obtain ⟨raw, hraw, rfl⟩ := List.mem_map.mp hl
    exact b.last raw hraw
  have hseparator := (separatorLine_plain t.nonempty).2
  have htail : ((t.separator :: b.after.map rstrip).takeWhile fun l => (markerKey l).isNone) =
      [t.separator] := by
    rw [List.takeWhile_cons, takeWhile_after b, Table.separator, hseparator]
    rfl
  have hbelow : ∀ l ∈ t.separator :: b.after.map rstrip, markerKey l ≠ some b.key := by
    intro l hl
    rcases List.mem_cons.mp hl with rfl | hlater
    · rw [Table.separator, hseparator]
      simp
    · exact hafter l hlater
  rw [loadFmtonlyDump, dumpLines_dumpText crlf b t h, collect_concat rfl readBlock_concat_blank]
  by_cases hkey : markerKey t.header = some b.key
  · -- the line of names starts the block of the object again
    have hkeyed : markerKey t.header ≠ none := by
      rw [hkey]
      exact Option.some_ne_none b.key
    rw [if_neg hkeyed]
    have hmarker : markerKey (rstrip t.header) = some b.key := by
      rw [markerKey_rstrip, hkey]
    have hget : (collect markerKey readBlock ((b.before.map rstrip ++ [rstrip b.marker]) ++
        rstrip t.header :: t.separator :: b.after.map rstrip)).get b.key = _ :=
      get_collect hmarker hbelow _
    rw [htail, readBlock_separator, List.append_assoc, List.singleton_append] at hget
    exact hget
  · have hbody : ∀ l ∈ rstrip t.header :: t.separator :: b.after.map rstrip,
        markerKey l ≠ some b.key := by
      intro l hl
      rcases List.mem_cons.mp hl with rfl | hlater
      · rw [markerKey_rstrip]
        exact hkey
      · exact hbelow l hlater
    rw [get_collect b.recognized hbody, List.takeWhile_cons, markerKey_rstrip, htail]
    cases hheader : markerKey t.header with
    | none => rfl
    | some k => rfl

end Blocks

theorem isWord_shown {c : Column} (h : IsWord c.name.toList) : IsWord c.shown := by
  constructor
  · intro hempty
    rcases List.take_eq_nil_iff.mp hempty with hwidth | hname
    · have hwide := c.wide
      omega
    · exact h.1 hname
  · intro ch hch
    exact h.2 ch (List.mem_of_mem_take hch)

theorem shown_eq_iff (c : Column) :
    String.ofList c.shown = c.name ↔ c.name.length ≤ c.width := by
  rw [← String.toList_inj, String.toList_ofList, Column.shown, List.take_eq_self_iff,
    String.length_toList]

/-- The words of the line of names, and there is one. -/
theorem words_header {t : Table} (hwords : ∀ c ∈ t.columns, IsWord c.name.toList) :
    words t.header = t.columns.map Column.shown ∧ words t.header ≠ [] := by
  have hheader : words t.header = t.columns.map Column.shown :=
    words_headerLine fun c hc => isWord_shown (hwords c hc)
  refine ⟨hheader, ?_⟩
  rw [hheader, ne_eq, List.map_eq_nil_iff]
  exact t.nonempty

/-- Names without a colon can look like nothing but names. -/
theorem recoverable_of_no_colon (t : Table) (hwords : ∀ c ∈ t.columns, IsWord c.name.toList)
    (hfits : ∀ c ∈ t.columns, c.name.length ≤ c.width)
    (hcolon : ∀ c ∈ t.columns, ':' ∉ c.name.toList) : Recoverable t := by
  have hstrip : ':' ∉ strip t.header := notMem_strip (notMem_headerLine (by decide) hcolon)
  refine ⟨hwords, hfits, ?_, ?_⟩
  · cases hmarker : markerKey t.header with
    | none => rfl
    | some key =>
      obtain ⟨-, -, code, -, hline⟩ := parseMarker_eq_some hmarker
      rw [hline] at hstrip
      simp [markerStart] at hstrip
  · cases herror : dropPrefix errorStart (strip t.header) with
    | none => rfl
    | some rest =>
      rw [dropPrefix_eq_some herror] at hstrip
      simp [errorStart] at hstrip

/-- The names of a table are read back exactly when each is one word that fits in
its column and their line looks neither like a marker nor like an error. -/
theorem get_dumpText_iff (crlf : Bool) (b : Block) (t : Table) :
    (loadFmtonlyDump (dumpText crlf b t)).get b.key = some ⟨some t.names, none⟩ ↔
      Recoverable t := by
  constructor
  · intro hget
    have hwords : ∀ c ∈ t.columns, IsWord c.name.toList := by
      intro c hc
      exact isWord_of_get hget c.name (List.mem_map_of_mem hc)
    obtain ⟨hheader, hne⟩ := words_header hwords
    rw [get_dumpText crlf b t (oneLine_headerLine hwords), Option.some.injEq] at hget
    have hmarker : markerKey t.header = none := by
      by_contra hkeyed
      rw [if_neg hkeyed] at hget
      have hnone := congrArg Entry.columns hget
      contradiction
    rw [if_pos hmarker] at hget
    have herror : dropPrefix errorStart (strip t.header) = none := by
      cases hdrop : dropPrefix errorStart (strip t.header) with
      | none => rfl
      | some message =>
        have hnone := readBlock_error t hdrop
        rw [hget] at hnone
        contradiction
    refine ⟨hwords, ?_, hmarker, herror⟩
    rw [readBlock_table t herror hne, hheader, List.map_map] at hget
    have hnames := Option.some.inj (congrArg Entry.columns hget)
    intro c hc
    exact (shown_eq_iff c).mp (List.map_inj_left.mp hnames c hc)
  · intro h
    obtain ⟨hheader, hne⟩ := words_header h.words
    have hnames : (t.columns.map Column.shown).map String.ofList = t.names := by
      rw [List.map_map]
      apply List.map_congr_left
      intro c hc
      exact (shown_eq_iff c).mpr (h.fits c hc)
    rw [get_dumpText crlf b t (oneLine_headerLine h.words), if_pos h.no_marker,
      readBlock_table t h.no_error hne, hheader, hnames]

/-- The block of a function and nothing else. -/
def sampleBlock : Block where
  before := []
  marker := DumpObject.marker ⟨"sys", "fn_jobs", .TF, [], by decide⟩
  key := ("sys", "fn_jobs")
  after := []
  one_line := by decide
  recognized := by decide
  next := by
    intro l hl
    contradiction
  last := by
    intro l hl
    contradiction

/-- A column whose name has a blank in it. -/
def spacedTable : Table where
  columns := [⟨"target server", 128, by decide⟩]
  nonempty := by decide

theorem not_get_dumpText_spaced :
    (loadFmtonlyDump (dumpText false sampleBlock spacedTable)).get sampleBlock.key ≠
      some ⟨some spacedTable.names, none⟩ := by
  intro hget
  have hword := isWord_of_get hget "target server" (List.mem_map_of_mem List.mem_cons_self)
  have hblank := hword.2 ' ' (by decide)
  exact Bool.noConfusion hblank

end SqlServerMcp.FixedWidthHeaders
