import SqlServerMcp.FmtonlyDump
import SqlServerMcp.JsonTexts

/-!
The dumps of rows as JSON. The server cuts the text of its rows into pieces, and
the client writes each piece on a line of its own, under what else it prints. The
generator joins the lines and reads from the first bracket on, so it reads the
rows wherever they were cut, and nothing but blanks may come after them.
-/
namespace SqlServerMcp.JsonDump

open FmtonlyDump JsonTexts JsonValue

def isBracket (c : Char) : Bool := c = '[' || c = Char.ofNat 123

inductive DumpError where
  | noJson (message : String)
  | decode
  deriving DecidableEq

/-- The rows of a dump; there is no file for what was not extracted. Python's `json`
goes its own way on texts that no client writes for rows: of two members with one key
it keeps the last where `read` keeps both, it holds an integer beyond 64 bits exactly,
and it takes `NaN`, `Infinity` and an unpaired surrogate, which `read` refuses. -/
def loadJsonDump (readFloat : List Char → Option UInt64) (path : String) :
    Option (List Char) → Except DumpError Json
  | none => .ok (.arr [])
  | some raw =>
    let text := strip ((normalizeNewlines (universalNewlines raw)).filter (· ≠ '\n'))
    if text = [] then .ok (.arr [])
    else match text.dropWhile (fun c => !isBracket c) with
      | [] => .error (.noJson (path ++ ": no JSON array/object found in sqlcmd output"))
      | json => match read readFloat json with
        | some value => .ok value
        | none => .error .decode

/-- What the client writes, under either convention for line ends. -/
def dumpText (crlf : Bool) (lines : List (List Char)) : List Char :=
  lines.flatMap fun line => line ++ lineEnd crlf

section Lines

/-- Without its line ends a text is what it is without either character. -/
theorem filter_universalNewlines (text : List Char) :
    (universalNewlines text).filter (· ≠ '\n') = text.filter fun c => c ≠ '\n' && c ≠ '\r' := by
  induction text using universalNewlines.induct with
  | case1 => rfl
  | case2 c =>
    rw [universalNewlines]
    by_cases hc : c = '\r' <;> by_cases hn : c = '\n' <;> simp [hc, hn]
  | case3 c d rest h ih =>
    obtain ⟨rfl, rfl⟩ := h
    rw [universalNewlines, if_pos ⟨rfl, rfl⟩, List.filter_cons_of_neg (by simp), ih]
    simp
  | case4 c d rest h ih =>
    rw [universalNewlines, if_neg h, List.filter_cons, List.filter_cons, ih]
    by_cases hc : c = '\r' <;> by_cases hn : c = '\n' <;> simp [hc, hn]

theorem joined_dumpText (crlf : Bool) {lines : List (List Char)}
    (h : ∀ line ∈ lines, OneLine line) :
    (normalizeNewlines (universalNewlines (dumpText crlf lines))).filter (· ≠ '\n') =
      lines.flatten := by
  rw [normalizeNewlines_universalNewlines, filter_universalNewlines]
  induction lines with
  | nil => rfl
  | cons line rest ih =>
    rw [List.forall_mem_cons] at h
    have hline : line.filter (fun c => c ≠ '\n' && c ≠ '\r') = line := by
      refine List.filter_eq_self.mpr fun c hc => ?_
      have hn : c ≠ '\n' := fun heq => h.1.1 (heq ▸ hc)
      have hr : c ≠ '\r' := fun heq => h.1.2 (heq ▸ hc)
      simp [hn, hr]
    have hend : (lineEnd crlf).filter (fun c => c ≠ '\n' && c ≠ '\r') = [] := by
      cases crlf <;> rfl
    have hcons : dumpText crlf (line :: rest) = line ++ lineEnd crlf ++ dumpText crlf rest := rfl
    rw [hcons, List.filter_append, List.filter_append, hline, hend, ih h.2, List.append_nil,
      List.flatten_cons]

end Lines

section Reading

theorem isSpace_of_isBlank {c : Char} (h : isBlank c = true) : isSpace c = true := by
  simp only [isBlank, Bool.or_eq_true, decide_eq_true_eq] at h
  rcases h with ((rfl | rfl) | rfl) | rfl <;> rfl

theorem not_isBracket_of_isSpace {c : Char} (h : isSpace c = true) : isBracket c = false := by
  have hopen : isSpace '[' = false ∧ isSpace (Char.ofNat 123) = false := ⟨rfl, rfl⟩
  simp only [isBracket, Bool.or_eq_false_iff, decide_eq_false_iff_not]
  exact ⟨fun heq => by simp [heq ▸ hopen.1] at h, fun heq => by simp [heq ▸ hopen.2] at h⟩

/-- Only what stands after the last character that is no blank is stripped. -/
theorem rstrip_append {text : List Char} {c : Char} (hlast : text.getLast? = some c)
    (hc : isSpace c = false) (rest : List Char) : rstrip (text ++ rest) = text ++ rstrip rest := by
  have hself : text.reverse.dropWhile isSpace = text.reverse := by
    have hkept := congrArg List.reverse (rstrip_eq_self hlast hc)
    simpa [rstrip, List.rdropWhile] using hkept
  unfold rstrip List.rdropWhile
  rw [List.reverse_append, List.dropWhile_append, hself]
  split
  · rename_i hrest
    rw [List.isEmpty_iff.mp hrest]
    simp
  · simp

theorem dropWhile_dropWhile {p q : Char → Bool} (h : ∀ c, p c = true → q c = true)
    (l : List Char) : (l.dropWhile p).dropWhile q = l.dropWhile q := by
  induction l with
  | nil => rfl
  | cons c rest ih =>
    rw [List.dropWhile_cons]
    split
    · rename_i hp
      rw [ih, List.dropWhile_cons, if_pos (h c hp)]
    · rfl

/-- What is read starts at the first bracket and ends at the last character that is
no blank. -/
theorem json_of_joined {before text : List Char} (hbefore : ∀ c ∈ before, isBracket c = false)
    (hfirst : text.head? = some '[') (hlast : text.getLast? = some ']') (after : List Char) :
    (strip (before ++ text ++ after)).dropWhile (fun c => !isBracket c) = text ++ rstrip after := by
  have hend : (before ++ text).getLast? = some ']' := by
    rw [List.getLast?_append, hlast]
    rfl
  have hbracket : ∀ c, isSpace c = true → (!isBracket c) = true := fun c hc => by
    rw [not_isBracket_of_isSpace hc]
    rfl
  rw [strip, rstrip_append hend rfl, dropWhile_dropWhile hbracket, List.append_assoc,
    List.dropWhile_append_of_pos fun c hc => by rw [hbefore c hc]; rfl]
  cases text with
  | nil => cases hfirst
  | cons c rest =>
    obtain rfl := Option.some.inj hfirst
    rfl

theorem rstrip_eq_nil_iff (text : List Char) :
    rstrip text = [] ↔ ∀ c ∈ text, isSpace c = true := List.rdropWhile_eq_nil_iff

/-- What is left of a text does not end in a blank. -/
theorem space_rstrip_iff {p : Char → Bool} (hp : ∀ c, p c = true → isSpace c = true)
    (text : List Char) :
    (∀ c ∈ rstrip text, p c = true) ↔ ∀ c ∈ text, isSpace c = true := by
  rw [← rstrip_eq_nil_iff]
  constructor
  · intro h
    by_contra hne
    exact List.rdropWhile_last_not isSpace text hne (hp _ (h _ (List.getLast_mem hne)))
  · intro h
    rw [h]
    nofun

theorem strip_eq_nil_iff (text : List Char) : strip text = [] ↔ ∀ c ∈ text, isSpace c = true := by
  rw [strip, List.dropWhile_eq_nil_iff, space_rstrip_iff fun _ => id]

theorem forall_mem_lines {p : Char → Prop} (lines : List (List Char)) :
    (∀ c ∈ lines.flatten, p c) ↔ ∀ line ∈ lines, ∀ c ∈ line, p c := by
  simp only [List.mem_flatten]
  exact ⟨fun h line hline c hc => h c ⟨line, hline, hc⟩,
    fun h c ⟨line, hline, hc⟩ => h line hline c hc⟩

variable (readFloat : List Char → Option UInt64) (path : String) (crlf : Bool)

/-- Rows are read from the lines that they were cut into, and nothing else is, when
no bracket comes before them; only blanks may come after them. -/
theorem loadJsonDump_eq_ok_iff (preamble chunks trailer : List (List Char)) (text : List Char)
    (rows : List Json) (hlines : ∀ line ∈ preamble ++ chunks ++ trailer, OneLine line)
    (hpreamble : ∀ line ∈ preamble, ∀ c ∈ line, isBracket c = false)
    (hchunks : chunks.flatten = text) (hfirst : text.head? = some '[')
    (hlast : text.getLast? = some ']') (hread : read readFloat text = some (.arr rows))
    (value : Json) :
    loadJsonDump readFloat path (some (dumpText crlf (preamble ++ chunks ++ trailer))) =
        .ok value ↔
      value = .arr rows ∧ ∀ line ∈ trailer, ∀ c ∈ line, isSpace c = true := by
  have hbefore := (forall_mem_lines preamble).mpr hpreamble
  have hjson := json_of_joined hbefore hfirst hlast trailer.flatten
  have hne : strip (preamble.flatten ++ text ++ trailer.flatten) ≠ [] := by
    intro hnil
    rw [hnil, List.dropWhile_nil] at hjson
    cases text with
    | nil => cases hfirst
    | cons => cases hjson
  rw [loadJsonDump, joined_dumpText crlf hlines, List.flatten_append, List.flatten_append, hchunks,
    if_neg hne, hjson, ← forall_mem_lines, ← space_rstrip_iff fun _ => isSpace_of_isBlank]
  cases text with
  | nil => cases hfirst
  | cons c rest =>
    have hrest := read_append hread (rstrip trailer.flatten)
    rw [List.cons_append] at hrest ⊢
    dsimp only
    rw [hrest]
    by_cases hblank : ∀ c ∈ rstrip trailer.flatten, isBlank c = true
    · rw [if_pos (List.all_eq_true.mpr hblank)]
      exact ⟨fun h => ⟨(Except.ok.inj h).symm, hblank⟩, fun h => congrArg _ h.1.symm⟩
    · rw [if_neg (mt List.all_eq_true.mp hblank)]
      exact ⟨nofun, fun h => absurd h.2 hblank⟩

/-- A dump of blank lines has no rows, and one that prints something else without a
bracket is refused by name. -/
theorem loadJsonDump_without_json (lines : List (List Char))
    (hlines : ∀ line ∈ lines, OneLine line)
    (hbrackets : ∀ line ∈ lines, ∀ c ∈ line, isBracket c = false) :
    loadJsonDump readFloat path (some (dumpText crlf lines)) =
      if lines.flatten.all isSpace then .ok (.arr [])
      else .error (.noJson (path ++ ": no JSON array/object found in sqlcmd output")) := by
  have hblank := (strip_eq_nil_iff lines.flatten).trans List.all_eq_true.symm
  rw [loadJsonDump, joined_dumpText crlf hlines]
  by_cases h : strip lines.flatten = []
  · rw [if_pos h, if_pos (hblank.mp h)]
  · rw [if_neg h, if_neg (mt hblank.mpr h)]
    have hnone : (strip lines.flatten).dropWhile (fun c => !isBracket c) = [] := by
      refine List.dropWhile_eq_nil_iff.mpr fun c hc => ?_
      have hmem : c ∈ lines.flatten :=
        (List.rdropWhile_prefix isSpace lines.flatten).subset
          ((List.dropWhile_suffix isSpace).subset hc)
      rw [(forall_mem_lines lines).mpr hbrackets c hmem]
      rfl
    rw [hnone]

end Reading

/-! A row that was cut inside a name, under the line that the client prints first. -/

def sampleRow : Json := .obj [("object_name", .str "sp_who")]

def samplePreamble : List (List Char) := ["Changed database context to 'master'.".toList]

def sampleChunks : List (List Char) :=
  ["[\x7b\"object_n".toList, "ame\":\"sp_who\"\x7d]".toList]

theorem sampleRow_loaded :
    loadJsonDump (fun _ => none) "data/2025/master.objects.json"
        (some (dumpText false (samplePreamble ++ sampleChunks ++ [[]]))) =
      .ok (.arr [sampleRow]) := by
  refine (loadJsonDump_eq_ok_iff (fun _ => none) "data/2025/master.objects.json" false
    samplePreamble sampleChunks [[]] sampleChunks.flatten [sampleRow] ?_ ?_ rfl rfl rfl rfl
    (.arr [sampleRow])).mpr ⟨rfl, by simp⟩
  · simp [samplePreamble, sampleChunks, OneLine]
  · simp [samplePreamble, isBracket]

end SqlServerMcp.JsonDump
