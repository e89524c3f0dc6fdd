import Mathlib.Data.List.DropRight
import SqlServerMcp.MarkedBlocks
import SqlServerMcp.Text

/-!
The plain-text dump of result columns. A script prints a marker line before the
output of each object, and the generator cuts the text into blocks at the
markers it recognizes. Of a block it keeps the words over the first line of
dashes, or the error that comes before it.
-/
namespace SqlServerMcp.FmtonlyDump

open AssocMap MarkedBlocks Text

/-- What Python strips: the blanks of Unicode and the separators of ASCII. -/
def isSpace (c : Char) : Bool := isWhitespace c || (28 ≤ c.toNat && c.toNat ≤ 31)

def rstrip (l : List Char) : List Char := l.rdropWhile isSpace

def strip (l : List Char) : List Char := (rstrip l).dropWhile isSpace

/-- The words between blanks. -/
def words (l : List Char) : List (List Char) := (l.splitOnP isSpace).filter (· ≠ [])

def dropPrefix (pre l : List Char) : Option (List Char) :=
  if pre <+: l then some (l.drop pre.length) else none

/-- How a marker line starts and ends, and how an error line starts. -/
def markerStart : List Char := ['=', '=', '=', 'O', 'B', 'J', 'E', 'C', 'T', ':']
def markerEnd : List Char := ['=', '=', '=']
def errorStart : List Char := ['E', 'R', 'R', 'O', 'R', ':']

/-- The rest of a reversed text after a code of one or two letters and a colon. -/
def dropCode : List Char → Option (List Char)
  | d :: ':' :: rest => if d.isAlpha then some rest else none
  | d :: c :: ':' :: rest => if d.isAlpha ∧ c.isAlpha then some rest else none
  | _ => none

/-- The schema and the name on a marker line: the schema ends at the first dot,
the name at the colon before the code. -/
def parseMarker (line : List Char) : Option (String × String) := do
  let rest ← dropPrefix markerStart line
  let (schema, tail) ← splitOnce '.' rest
  let coded ← dropPrefix markerEnd tail.reverse
  let name ← dropCode coded
  if schema = [] ∨ name = [] then none
  else some (String.ofList schema, String.ofList name.reverse)

/-- Dashes with blanks between them. -/
def isSeparator (l : List Char) : Bool :=
  l.all (fun c => c = '-' || c = ' ') && l.head? = some '-' && l.getLast? = some '-'

structure Entry where
  columns : Option (List String)
  error : Option String
  deriving DecidableEq

/-- The lines of a block are read from the first one on, with the line before. -/
def scanBlock (previous : Option (List Char)) : List (List Char) → Entry
  | [] => ⟨none, none⟩
  | line :: rest =>
    let stripped := strip line
    match dropPrefix errorStart stripped, previous with
    | some message, _ => ⟨none, some (String.ofList (strip message))⟩
    | none, none => scanBlock (some line) rest
    | none, some before =>
      if isSeparator stripped then
        let header := strip before
        ⟨if header = [] then none else some ((words header).map String.ofList), none⟩
      else scanBlock (some line) rest

def readBlock (lines : List (List Char)) : Entry := scanBlock none lines

/-- Line ends as a file in text mode is read with: a carriage return ends a line,
with a line feed after it or without. -/
def universalNewlines : List Char → List Char
  | [] => []
  | [c] => [if c = '\r' then '\n' else c]
  | c :: d :: rest =>
    if c = '\r' ∧ d = '\n' then '\n' :: universalNewlines rest
    else (if c = '\r' then '\n' else c) :: universalNewlines (d :: rest)

/-- Line ends of two characters become line feeds. -/
def normalizeNewlines : List Char → List Char
  | [] => []
  | [c] => [c]
  | c :: d :: rest =>
    if c = '\r' ∧ d = '\n' then '\n' :: normalizeNewlines rest
    else c :: normalizeNewlines (d :: rest)

/-- The key of a line that is a marker. -/
def markerKey (line : List Char) : Option (String × String) := parseMarker (strip line)

def dumpLines (raw : List Char) : List (List Char) :=
  (splitAll '\n' (normalizeNewlines (universalNewlines raw))).map rstrip

/-- The entry of each object in a dump. -/
def loadFmtonlyDump (raw : List Char) : Map (String × String) Entry :=
  collect markerKey readBlock (dumpLines raw)

/-- The types of object that the script goes through. -/
inductive SweptType where
  | P | FN | IF | TF | V
  deriving DecidableEq

/-- A type code in a variable of two characters. -/
def SweptType.code : SweptType → List Char
  | P => ['P', ' ']
  | FN => ['F', 'N']
  | IF => ['I', 'F']
  | TF => ['T', 'F']
  | V => ['V', ' ']

/-- A text within which no line ends. -/
def OneLine (text : List Char) : Prop := '\n' ∉ text ∧ '\r' ∉ text

instance (text : List Char) : Decidable (OneLine text) := inferInstanceAs (Decidable (_ ∧ _))

/-- A line of output that is no marker. -/
structure PlainLine where
  text : List Char
  one_line : OneLine text
  plain : markerKey (rstrip text) = none

/-- An object of the sweep with the output that follows its marker. -/
structure DumpObject where
  schema : String
  name : String
  type : SweptType
  body : List PlainLine
  schema_dot : '.' ∉ schema.toList

namespace DumpObject

variable (o : DumpObject)

def key : String × String := (o.schema, o.name)

/-- The line that the script prints before the output of the object. -/
def marker : List Char :=
  markerStart ++ (o.schema.toList ++ '.' :: (o.name.toList ++ ':' :: (o.type.code ++
    markerEnd)))

def lines : List (List Char) := o.marker :: o.body.map PlainLine.text

/-- What the object's own output says. -/
def entry : Entry := readBlock (o.body.map fun l => rstrip l.text)

end DumpObject

def lineEnd (crlf : Bool) : List Char := if crlf then ['\r', '\n'] else ['\n']

/-- The text of a dump; other output may come before the first object. -/
def renderDump (crlf : Bool) (preamble : List PlainLine) (objects : List DumpObject) : List Char :=
  (preamble.map PlainLine.text ++ objects.flatMap DumpObject.lines).flatMap fun line =>
    line ++ lineEnd crlf

section Stripping

/-- Text that ends in no blank is stripped at its end already. -/
theorem rstrip_eq_self {l : List Char} {c : Char} (hlast : l.getLast? = some c)
    (hc : isSpace c = false) : rstrip l = l := by
  rw [rstrip, List.rdropWhile_eq_self_iff]
  intro hl
  rw [List.getLast?_eq_getLast_of_ne_nil hl] at hlast
  rw [Option.some.inj hlast, hc]
  exact Bool.false_ne_true

theorem strip_eq_self {l : List Char} {c d : Char} (hhead : l.head? = some d)
    (hlast : l.getLast? = some c) (hd : isSpace d = false) (hc : isSpace c = false) :
    strip l = l := by
  rw [strip, rstrip_eq_self hlast hc]
  cases l with
  | nil => rfl
  | cons e rest =>
    rw [Option.some.inj hhead]
    simp [hd]

theorem notMem_rstrip {l : List Char} {c : Char} (h : c ∉ l) : c ∉ rstrip l := by
  intro hmem
  exact h ((List.rdropWhile_prefix isSpace l).subset hmem)

theorem notMem_strip {l : List Char} {c : Char} (h : c ∉ l) : c ∉ strip l := by
  intro hmem
  exact notMem_rstrip h ((List.dropWhile_sublist isSpace).subset hmem)

end Stripping

section Lines

theorem notMem_of_mem_splitAll {sep : Char} {l w : List Char} (h : w ∈ splitAll sep l) :
    sep ∉ w := by
  induction l generalizing w with
  | nil =>
    rw [splitAll, List.mem_singleton] at h
    rw [h]
    exact List.not_mem_nil
  | cons c l ih =>
    rw [splitAll] at h
    by_cases hc : c = sep
    · rw [if_pos hc] at h
      rcases List.mem_cons.mp h with hempty | hrest
      · rw [hempty]
        exact List.not_mem_nil
      · exact ih hrest
    · rw [if_neg hc] at h
      cases hwords : splitAll sep l with
      | nil =>
        rw [hwords, List.mem_singleton] at h
        rw [h, List.mem_singleton]
        exact Ne.symm hc
      | cons word words =>
        rw [hwords] at h ih
        rcases List.mem_cons.mp h with hfirst | hrest
        · rw [hfirst, List.mem_cons, not_or]
          exact ⟨Ne.symm hc, ih List.mem_cons_self⟩
        · exact ih (List.mem_cons_of_mem word hrest)

theorem mem_of_mem_splitAll {sep c : Char} {l w : List Char} (h : w ∈ splitAll sep l)
    (hc : c ∈ w) : c ∈ l := by
  induction l generalizing w with
  | nil =>
    rw [splitAll, List.mem_singleton] at h
    rwa [h] at hc
  | cons d l ih =>
    rw [splitAll] at h
    by_cases hd : d = sep
    · rw [if_pos hd] at h
      rcases List.mem_cons.mp h with hempty | hrest
      · rw [hempty] at hc
        contradiction
      · exact List.mem_cons_of_mem d (ih hrest hc)
    · rw [if_neg hd] at h
      cases hwords : splitAll sep l with
      | nil =>
        rw [hwords, List.mem_singleton] at h
        rw [h, List.mem_singleton] at hc
        exact hc ▸ List.mem_cons_self
      | cons word words =>
        rw [hwords] at h ih
        rcases List.mem_cons.mp h with hfirst | hrest
        · rw [hfirst] at hc
          rcases List.mem_cons.mp hc with hhead | htail
          · exact hhead ▸ List.mem_cons_self
          · exact List.mem_cons_of_mem d (ih List.mem_cons_self htail)
        · exact List.mem_cons_of_mem d (ih (List.mem_cons_of_mem word hrest) hc)

theorem universalNewlines_cons {c : Char} (h : c ≠ '\r') (rest : List Char) :
    universalNewlines (c :: rest) = c :: universalNewlines rest := by
  cases rest with
  | nil => simp only [universalNewlines, h, if_false]
  | cons d rest => rw [universalNewlines, if_neg fun hcd => h hcd.1, if_neg h]

/-- Whatever ends it, a line ends at a line feed when it is read. -/
theorem universalNewlines_line (crlf : Bool) {l : List Char} (h : OneLine l) (rest : List Char) :
    universalNewlines (l ++ lineEnd crlf ++ rest) = l ++ '\n' :: universalNewlines rest := by
  induction l with
  | nil =>
    cases crlf with
    | true => exact if_pos ⟨rfl, rfl⟩
    | false => exact universalNewlines_cons (by decide) rest
  | cons c l ih =>
    obtain ⟨hfeed, hreturn⟩ := h
    rw [List.mem_cons, not_or] at hfeed hreturn
    rw [List.cons_append, List.cons_append, universalNewlines_cons (Ne.symm hreturn.1),
      ih ⟨hfeed.2, hreturn.2⟩, List.cons_append]

theorem cr_notMem_universalNewlines (text : List Char) : '\r' ∉ universalNewlines text := by
  induction text using universalNewlines.induct with
  | case1 => simp [universalNewlines]
  | case2 c =>
    rw [universalNewlines]
    split
    · simp
    · simpa using fun h : '\r' = c => ‹¬ c = '\r'› h.symm
  | case3 c d rest h ih =>
    rw [universalNewlines, if_pos h]
    simp [ih]
  | case4 c d rest h ih =>
    rw [universalNewlines, if_neg h, List.mem_cons, not_or]
    refine ⟨?_, ih⟩
    split
    · simp
    · exact fun heq => ‹¬ c = '\r'› heq.symm

/-- A file in text mode has no line ends of two characters left. -/
theorem normalizeNewlines_of_notMem {text : List Char} (h : '\r' ∉ text) :
    normalizeNewlines text = text := by
  induction text using normalizeNewlines.induct with
  | case1 => rfl
  | case2 c => rfl
  | case3 c d rest hcd ih => exact absurd (hcd.1 ▸ List.mem_cons_self) h
  | case4 c d rest hcd ih =>
    rw [List.mem_cons, not_or] at h
    rw [normalizeNewlines, if_neg hcd, ih h.2]

theorem normalizeNewlines_universalNewlines (raw : List Char) :
    normalizeNewlines (universalNewlines raw) = universalNewlines raw :=
  normalizeNewlines_of_notMem (cr_notMem_universalNewlines raw)

/-- The lines of a text are read back, up to the blanks at their ends; the end of
the last one leaves an empty line. -/
theorem dumpLines_flatMap (crlf : Bool) {lines : List (List Char)} (h : ∀ l ∈ lines, OneLine l) :
    dumpLines (lines.flatMap fun line => line ++ lineEnd crlf) = lines.map rstrip ++ [[]] := by
  induction lines with
  | nil => rfl
  | cons l lines ih =>
    have hl := h l List.mem_cons_self
    have hrest := ih fun m hm => h m (List.mem_cons_of_mem l hm)
    rw [dumpLines, normalizeNewlines_universalNewlines] at hrest ⊢
    rw [List.flatMap_cons, universalNewlines_line crlf hl, splitAll_append '\n' _ hl.1,
      List.map_cons, hrest, List.map_cons, List.cons_append]

/-- No line that is read has a line end in it. -/
theorem oneLine_of_mem_dumpLines {raw line : List Char} (h : line ∈ dumpLines raw) :
    OneLine line := by
  obtain ⟨word, hword, hstrip⟩ := List.mem_map.mp h
  rw [normalizeNewlines_universalNewlines] at hword
  rw [← hstrip]
  exact ⟨notMem_rstrip (notMem_of_mem_splitAll hword),
    notMem_rstrip fun hmem => cr_notMem_universalNewlines raw (mem_of_mem_splitAll hword hmem)⟩

end Lines

section Markers

theorem reverse_markerEnd : markerEnd.reverse = markerEnd := rfl

theorem dropPrefix_append (pre l : List Char) : dropPrefix pre (pre ++ l) = some l := by
  rw [dropPrefix, if_pos (List.prefix_append pre l), List.drop_left]

theorem dropPrefix_eq_some {pre l rest : List Char} (h : dropPrefix pre l = some rest) :
    l = pre ++ rest := by
  rw [dropPrefix] at h
  by_cases hpre : pre <+: l
  · obtain ⟨tail, htail⟩ := hpre
    rw [← htail, if_pos (List.prefix_append pre tail), List.drop_left] at h
    rw [← Option.some.inj h, htail]
  · rw [if_neg hpre] at h
    contradiction

/-- A code of one or two letters, last letter first. -/
def IsCode (code : List Char) : Prop :=
  (code.length = 1 ∨ code.length = 2) ∧ ∀ c ∈ code, c.isAlpha

theorem dropCode_eq_some {l rest : List Char} (h : dropCode l = some rest) :
    ∃ code, IsCode code ∧ l = code ++ ':' :: rest := by
  unfold dropCode at h
  split at h
  · rename_i d tail
    by_cases hd : d.isAlpha
    · rw [if_pos hd] at h
      refine ⟨[d], ⟨Or.inl rfl, ?_⟩, ?_⟩
      · intro c hc
        rw [List.mem_singleton.mp hc]
        exact hd
      · rw [Option.some.inj h, List.singleton_append]
    · rw [if_neg hd] at h
      contradiction
  · rename_i d c tail _
    by_cases hdc : d.isAlpha ∧ c.isAlpha
    · rw [if_pos hdc] at h
      refine ⟨[d, c], ⟨Or.inr rfl, ?_⟩, ?_⟩
      · intro e he
        rcases List.mem_cons.mp he with hd | hc
        · rw [hd]
          exact hdc.1
        · rw [List.mem_singleton.mp hc]
          exact hdc.2
      · rw [Option.some.inj h]
        rfl
    · rw [if_neg hdc] at h
      contradiction
  · contradiction

/-- A recognized marker has a schema, a name and a code of letters. -/
theorem parseMarker_eq_some {line : List Char} {schema name : String}
    (h : parseMarker line = some (schema, name)) :
    schema.toList ≠ [] ∧ name.toList ≠ [] ∧ ∃ code, IsCode code ∧
      line = markerStart ++ (schema.toList ++ '.' :: (name.toList ++ ':' ::
        (code.reverse ++ markerEnd))) := by
  simp only [parseMarker, Option.bind_eq_bind, Option.bind_eq_some_iff] at h
  obtain ⟨rest, hrest, ⟨s, tail⟩, hsplit, coded, hcoded, n, hcode, h⟩ := h
  by_cases hempty : s = [] ∨ n = []
  · rw [if_pos hempty] at h
    contradiction
  · rw [if_neg hempty] at h
    obtain ⟨hschema, hname⟩ := Prod.mk.inj (Option.some.inj h)
    obtain ⟨code, hletters, hcodeEq⟩ := dropCode_eq_some hcode
    have htail : tail = n.reverse ++ ':' :: (code.reverse ++ markerEnd) := by
      have hreverse := congrArg List.reverse (dropPrefix_eq_some hcoded)
      rw [List.reverse_reverse, hcodeEq] at hreverse
      refine Eq.trans hreverse ?_
      simp [reverse_markerEnd]
    rw [← hschema, ← hname, String.toList_ofList, String.toList_ofList]
    refine ⟨fun hs => hempty (Or.inl hs), ?_, code, hletters, ?_⟩
    · intro hn
      exact hempty (Or.inr (List.reverse_eq_nil_iff.mp hn))
    · rw [dropPrefix_eq_some hrest, splitOnce_eq_some hsplit, htail]

/-- A marker of two letters is recognized. -/
theorem parseMarker_marker {schema name : List Char} {c d : Char} (hdot : '.' ∉ schema)
    (hschema : schema ≠ []) (hname : name ≠ []) (hc : c.isAlpha) (hd : d.isAlpha) :
    parseMarker (markerStart ++ (schema ++ '.' :: (name ++ ':' :: ([c, d] ++
      markerEnd)))) = some (String.ofList schema, String.ofList name) := by
  have hreverse : (name ++ ':' :: ([c, d] ++ markerEnd)).reverse =
      markerEnd ++ d :: c :: ':' :: name.reverse := by
    simp [reverse_markerEnd]
  have hcode : dropCode (d :: c :: ':' :: name.reverse) = some name.reverse := by
    have hcolon : c ≠ ':' := by
      intro heq
      rw [heq] at hc
      contradiction
    rw [dropCode, if_pos ⟨hd, hc⟩]
    exact hcolon
  have hne : ¬ (schema = [] ∨ name.reverse = []) := by
    rw [List.reverse_eq_nil_iff]
    exact not_or.mpr ⟨hschema, hname⟩
  simp only [parseMarker, dropPrefix_append, splitOnce_append '.' _ _ hdot, hreverse, hcode,
    Option.bind_eq_bind, Option.bind_some, hne, if_false, List.reverse_reverse]

end Markers

/-- The code has two letters. -/
def SweptType.twoLetters : SweptType → Bool
  | FN | IF | TF => true
  | P | V => false

namespace DumpObject

variable (o : DumpObject)

/-- The marker is recognized: the code has two letters, and the names are not
empty and have no line end in them. -/
def Readable : Prop :=
  o.type.twoLetters ∧ o.schema ≠ "" ∧ o.name ≠ "" ∧ OneLine o.schema.toList ∧
    OneLine o.name.toList

theorem strip_marker : rstrip o.marker = o.marker ∧ strip o.marker = o.marker := by
  have hlast : o.marker.getLast? = some '=' := by
    have hconcat : o.marker = (markerStart ++ (o.schema.toList ++ '.' :: (o.name.toList ++
        ':' :: (o.type.code ++ ['=', '='])))) ++ ['='] := by
      simp [marker, markerEnd]
    rw [hconcat, List.getLast?_concat]
  exact ⟨rstrip_eq_self hlast (by decide), strip_eq_self rfl hlast (by decide) (by decide)⟩

theorem markerKey_marker : markerKey (rstrip o.marker) = parseMarker o.marker := by
  rw [o.strip_marker.1, markerKey, o.strip_marker.2]

theorem markerKey_of_twoLetters (hcode : o.type.twoLetters) (hschema : o.schema ≠ "")
    (hname : o.name ≠ "") : markerKey (rstrip o.marker) = some o.key := by
  have hs : o.schema.toList ≠ [] := fun h => hschema (String.toList_eq_nil_iff.mp h)
  have hn : o.name.toList ≠ [] := fun h => hname (String.toList_eq_nil_iff.mp h)
  have hcd : ∃ c d, o.type.code = [c, d] ∧ c.isAlpha ∧ d.isAlpha := by
    cases htype : o.type with
    | FN => exact ⟨'F', 'N', rfl, rfl, rfl⟩
    | IF => exact ⟨'I', 'F', rfl, rfl, rfl⟩
    | TF => exact ⟨'T', 'F', rfl, rfl, rfl⟩
    | P =>
      rw [htype] at hcode
      contradiction
    | V =>
      rw [htype] at hcode
      contradiction
  obtain ⟨c, d, hcodeEq, hc, hd⟩ := hcd
  rw [markerKey_marker, marker, hcodeEq, parseMarker_marker o.schema_dot hs hn hc hd,
    String.ofList_toList, String.ofList_toList]
  rfl

/-- A code of one letter leaves a blank where a letter has to be. -/
theorem markerKey_of_one_letter (hcode : ¬ o.type.twoLetters) :
    markerKey (rstrip o.marker) = none := by
  have hblank : ∃ c, o.type.code = [c, ' '] := by
    cases htype : o.type with
    | P => exact ⟨'P', rfl⟩
    | V => exact ⟨'V', rfl⟩
    | FN => exact absurd (by rw [htype]; rfl) hcode
    | IF => exact absurd (by rw [htype]; rfl) hcode
    | TF => exact absurd (by rw [htype]; rfl) hcode
  obtain ⟨c, hc⟩ := hblank
  rw [markerKey_marker]
  by_contra hne
  obtain ⟨⟨schema, name⟩, hparse⟩ := Option.ne_none_iff_exists'.mp hne
  obtain ⟨-, -, code, ⟨hlength, hletters⟩, hline⟩ := parseMarker_eq_some hparse
  have hreverse := congrArg List.reverse hline
  rw [marker, hc] at hreverse
  simp only [List.reverse_append, List.reverse_cons, List.append_assoc, List.reverse_reverse,
    List.append_cancel_left_eq] at hreverse
  cases code with
  | nil =>
    simp only [List.length_nil] at hlength
    omega
  | cons d rest =>
    have hd : ' ' = d := (List.cons.inj hreverse).1
    have halpha := hletters d List.mem_cons_self
    rw [← hd] at halpha
    contradiction

theorem one_line_marker (hschema : OneLine o.schema.toList) (hname : OneLine o.name.toList) :
    OneLine o.marker := by
  have hcode : OneLine o.type.code := by cases o.type <;> decide
  simp only [OneLine, marker, List.mem_append, List.mem_cons, not_or]
  exact ⟨⟨by decide, hschema.1, by decide, hname.1, by decide, hcode.1, by decide⟩,
    ⟨by decide, hschema.2, by decide, hname.2, by decide, hcode.2, by decide⟩⟩

end DumpObject

theorem scanBlock_concat_blank (lines : List (List Char)) (previous : Option (List Char)) :
    scanBlock previous (lines ++ [[]]) = scanBlock previous lines := by
  induction lines generalizing previous with
  | nil => cases previous <;> rfl
  | cons line lines ih =>
    simp only [List.cons_append, scanBlock, ih]

theorem readBlock_concat_blank (lines : List (List Char)) :
    readBlock (lines ++ [[]]) = readBlock lines := scanBlock_concat_blank lines none

namespace DumpObject

/-- The lines of a dump as they are read, without the empty one at the end. -/
def readLines (preamble : List PlainLine) (objects : List DumpObject) : List (List Char) :=
  (preamble.map fun l => rstrip l.text) ++
    objects.flatMap fun o => rstrip o.marker :: o.body.map fun l => rstrip l.text

theorem dumpLines_renderDump (crlf : Bool) (preamble : List PlainLine)
    {objects : List DumpObject}
    (h : ∀ o ∈ objects, OneLine o.schema.toList ∧ OneLine o.name.toList) :
    dumpLines (renderDump crlf preamble objects) = readLines preamble objects ++ [[]] := by
  have hlines : ∀ l ∈ preamble.map PlainLine.text ++ objects.flatMap lines, OneLine l := by
    intro l hl
    rcases List.mem_append.mp hl with hpre | hobjects
    · obtain ⟨p, -, hp⟩ := List.mem_map.mp hpre
      rw [← hp]
      exact p.one_line
    · obtain ⟨o, ho, hmem⟩ := List.mem_flatMap.mp hobjects
      rcases List.mem_cons.mp hmem with hmarker | hbody
      · rw [hmarker]
        exact o.one_line_marker (h o ho).1 (h o ho).2
      · obtain ⟨p, -, hp⟩ := List.mem_map.mp hbody
        rw [← hp]
        exact p.one_line
  rw [renderDump, dumpLines_flatMap crlf hlines, List.map_append, List.map_map, List.map_flatMap]
  simp only [lines, List.map_cons, List.map_map, readLines]
  rfl

/-- Of the lines of a dump only markers of two letters carry a key. -/
theorem length_keyed_lines (preamble : List PlainLine) {objects : List DumpObject}
    (h : ∀ o ∈ objects, o.schema ≠ "" ∧ o.name ≠ "") :
    ((readLines preamble objects).filter fun l => (markerKey l).isSome).length =
      (objects.filter fun o => o.type.twoLetters).length := by
  have hplain : ∀ ps : List PlainLine,
      (ps.map fun l => rstrip l.text).filter (fun l => (markerKey l).isSome) = [] := by
    intro ps
    rw [List.filter_eq_nil_iff]
    intro l hl
    obtain ⟨p, -, hp⟩ := List.mem_map.mp hl
    rw [← hp, p.plain]
    exact Bool.false_ne_true
  rw [readLines, List.filter_append, hplain, List.nil_append]
  induction objects with
  | nil => rfl
  | cons o objects ih =>
    have hrest := ih fun o' ho' => h o' (List.mem_cons_of_mem o ho')
    obtain ⟨hschema, hname⟩ := h o List.mem_cons_self
    rw [List.flatMap_cons, List.filter_append, List.length_append, hrest, List.filter_cons, hplain,
      List.filter_cons]
    by_cases hcode : o.type.twoLetters
    · simp only [o.markerKey_of_twoLetters hcode hschema hname, hcode, Option.isSome_some, if_true,
        List.length_cons, List.length_nil]
      omega
    · simp only [o.markerKey_of_one_letter hcode, hcode, Option.isSome_none, Bool.false_eq_true,
        if_false, List.length_nil]
      omega

/-- A key that is read has a schema and a name, on one line. -/
theorem names_of_mem_keys {text : List Char} {schema name : String}
    (h : (schema, name) ∈ keys (loadFmtonlyDump text).entries) :
    schema ≠ "" ∧ name ≠ "" ∧ OneLine schema.toList ∧ OneLine name.toList := by
  obtain ⟨line, hline, hkey⟩ := exists_line_of_mem_keys h
  obtain ⟨hschema, hname, code, -, hstrip⟩ := parseMarker_eq_some hkey
  obtain ⟨hfeed, hreturn⟩ := oneLine_of_mem_dumpLines hline
  replace hfeed := notMem_strip hfeed
  replace hreturn := notMem_strip hreturn
  rw [hstrip] at hfeed hreturn
  simp only [List.mem_append, List.mem_cons, not_or] at hfeed hreturn
  refine ⟨?_, ?_, ⟨hfeed.2.1, hreturn.2.1⟩, hfeed.2.2.2.1, hreturn.2.2.2.1⟩
  · intro hempty
    exact hschema (String.toList_eq_nil_iff.mpr hempty)
  · intro hempty
    exact hname (String.toList_eq_nil_iff.mpr hempty)

end DumpObject

/-- A dump is read as one entry for each object, made of the object's own output,
exactly when every marker is recognized and no two objects have the same name. -/
theorem loadFmtonlyDump_renderDump_iff (crlf : Bool) (preamble : List PlainLine)
    (objects : List DumpObject) :
    (loadFmtonlyDump (renderDump crlf preamble objects)).entries =
        objects.map (fun o => (o.key, o.entry)) ↔
      (∀ o ∈ objects, o.Readable) ∧ (objects.map DumpObject.key).Nodup := by
  constructor
  · intro h
    have hkeys : keys (loadFmtonlyDump (renderDump crlf preamble objects)).entries =
        objects.map DumpObject.key := by
      rw [h, keys, List.map_map]
      rfl
    have hnames : ∀ o ∈ objects, o.schema ≠ "" ∧ o.name ≠ "" ∧ OneLine o.schema.toList ∧
        OneLine o.name.toList := by
      intro o ho
      apply DumpObject.names_of_mem_keys
      rw [hkeys]
      exact List.mem_map_of_mem ho
    have hlines := DumpObject.dumpLines_renderDump crlf preamble fun o ho => (hnames o ho).2.2
    have hcodes : ∀ o ∈ objects, o.type.twoLetters := by
      have hle : (loadFmtonlyDump (renderDump crlf preamble objects)).entries.length ≤
          (objects.filter fun o => o.type.twoLetters).length := by
        rw [loadFmtonlyDump, hlines, collect_concat rfl readBlock_concat_blank,
          ← DumpObject.length_keyed_lines preamble fun o ho => ⟨(hnames o ho).1, (hnames o ho).2.1⟩]
        exact length_collect_le _
      rw [h, List.length_map] at hle
      have hlength := List.length_filter_le (fun o => o.type.twoLetters) objects
      exact List.length_filter_eq_length_iff.mp (Nat.le_antisymm hlength hle)
    refine ⟨fun o ho => ⟨hcodes o ho, hnames o ho⟩, ?_⟩
    rw [← hkeys]
    exact (loadFmtonlyDump (renderDump crlf preamble objects)).distinct
  · intro h
    obtain ⟨hreadable, hkeys⟩ := h
    have hlines := DumpObject.dumpLines_renderDump crlf preamble
      fun o ho => (hreadable o ho).2.2.2
    rw [loadFmtonlyDump, hlines, collect_concat rfl readBlock_concat_blank, DumpObject.readLines]
    apply collect_blocks (fun o => rstrip o.marker) DumpObject.key
      (fun o => o.body.map fun l => rstrip l.text)
    · intro l hl
      obtain ⟨p, -, hp⟩ := List.mem_map.mp hl
      rw [← hp]
      exact p.plain
    · intro o ho
      obtain ⟨hcode, hschema, hname, -⟩ := hreadable o ho
      exact o.markerKey_of_twoLetters hcode hschema hname
    · intro o _ l hl
      obtain ⟨p, -, hp⟩ := List.mem_map.mp hl
      rw [← hp]
      exact p.plain
    · exact hkeys

/-- A function without output, and a view with one column. -/
def functionAndView : List DumpObject :=
  [⟨"dbo", "f", .FN, [], by decide⟩,
   ⟨"dbo", "v", .V, [⟨['n', 'a', 'm', 'e'], by decide, by decide⟩,
     ⟨['-', '-', '-', '-'], by decide, by decide⟩], by decide⟩]

/-- The marker of the view is taken for output of the function, whose entry gets
the column of the view. -/
theorem loadFmtonlyDump_swallows_view :
    ¬ ∀ (crlf : Bool) (preamble : List PlainLine) (objects : List DumpObject),
      (objects.map DumpObject.key).Nodup →
        (∀ o ∈ objects, o.schema ≠ "" ∧ o.name ≠ "" ∧ OneLine o.schema.toList ∧
          OneLine o.name.toList) →
        (loadFmtonlyDump (renderDump crlf preamble objects)).entries =
          objects.map fun o => (o.key, o.entry) := by
  intro h
  have hread : (loadFmtonlyDump (renderDump false [] functionAndView)).entries =
      [(("dbo", "f"), ⟨some ["name"], none⟩)] := by decide
  have hclaim := h false [] functionAndView (by decide) (by decide)
  rw [hread] at hclaim
  exact absurd (congrArg List.length hclaim) (by decide)

end SqlServerMcp.FmtonlyDump
