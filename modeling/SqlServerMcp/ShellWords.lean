import Mathlib.Tactic.NormNum

/-!
How a POSIX shell splits a command line into words: blanks separate words,
quotes and backslashes join what they enclose and are removed. Nothing is
expanded. A line that ends within quotes is not a command.
-/
namespace SqlServerMcp.ShellWords

/-- Whether the next character is outside quotes, within them, or taken as it is
after a backslash. -/
inductive Quoting where
  | outside
  | escaped
  | single
  | double
  | doubleEscaped
  deriving DecidableEq

def isBlank (c : Char) : Bool := c = ' ' || c = '\t' || c = '\n'

def isSingleQuote (c : Char) : Bool := c.toNat = 39

/-- Within double quotes a backslash escapes the dollar sign, the backquote, the
double quote and itself; before any other character it stands for itself. -/
def isDoubleEscape (c : Char) : Bool := c = '$' || c.toNat = 96 || c = '"' || c = '\\'

/-- The words of the rest of a line after a part of a word, where one is open. -/
def wordsFrom : Quoting → Option (List Char) → List Char → Option (List (List Char))
  | .outside, word, [] => some word.toList
  | _, _, [] => none
  | .outside, word, c :: rest =>
    if isBlank c then (wordsFrom .outside none rest).map (word.toList ++ ·)
    else if c = '\\' then wordsFrom .escaped (some (word.getD [])) rest
    else if isSingleQuote c then wordsFrom .single (some (word.getD [])) rest
    else if c = '"' then wordsFrom .double (some (word.getD [])) rest
    else wordsFrom .outside (some (word.getD [] ++ [c])) rest
  | .escaped, word, c :: rest => wordsFrom .outside (some (word.getD [] ++ [c])) rest
  | .single, word, c :: rest =>
    if isSingleQuote c then wordsFrom .outside word rest
    else wordsFrom .single (some (word.getD [] ++ [c])) rest
  | .double, word, c :: rest =>
    if c = '"' then wordsFrom .outside word rest
    else if c = '\\' then wordsFrom .doubleEscaped word rest
    else wordsFrom .double (some (word.getD [] ++ [c])) rest
  | .doubleEscaped, word, c :: rest =>
    if isDoubleEscape c then wordsFrom .double (some (word.getD [] ++ [c])) rest
    else wordsFrom .double (some (word.getD [] ++ ['\\', c])) rest

def words (line : String) : Option (List String) :=
  (wordsFrom .outside none line.toList).map fun ws => ws.map String.ofList

/-- A character that means nothing to the shell. -/
def isPlain (c : Char) : Bool := !isBlank c && c ≠ '\\' && !isSingleQuote c && c ≠ '"'

theorem isPlain_iff (c : Char) :
    isPlain c = true ↔
      isBlank c = false ∧ c ≠ '\\' ∧ isSingleQuote c = false ∧ c ≠ '"' := by
  simp [isPlain, and_assoc]

theorem wordsFrom_plain {l : List Char} (h : l.all isPlain = true) (word rest : List Char) :
    wordsFrom .outside (some word) (l ++ rest) = wordsFrom .outside (some (word ++ l)) rest := by
  induction l generalizing word with
  | nil => rw [List.nil_append, List.append_nil]
  | cons c l ih =>
    rw [List.all_cons, Bool.and_eq_true] at h
    obtain ⟨hblank, hslash, hsingle, hdouble⟩ := (isPlain_iff c).mp h.1
    rw [List.cons_append, wordsFrom]
    simp only [hblank, hslash, hsingle, hdouble, if_false, Bool.false_eq_true, Option.getD_some]
    rw [ih h.2, List.append_assoc, List.singleton_append]

/-- A plain word before a blank is a word of its line. -/
theorem words_cons {w : String} (hne : w ≠ "") (h : w.toList.all isPlain = true)
    (rest : String) : words (w ++ " " ++ rest) = (words rest).map (w :: ·) := by
  have hchars : (w ++ " " ++ rest).toList = w.toList ++ ' ' :: rest.toList := by
    rw [String.toList_append, String.toList_append, List.append_assoc]
    rfl
  obtain ⟨c, l, hl⟩ : ∃ c l, w.toList = c :: l := by
    cases hw : w.toList with
    | nil => exact absurd (String.toList_eq_nil_iff.mp hw) hne
    | cons c l => exact ⟨c, l, rfl⟩
  have hstart : wordsFrom .outside none (w.toList ++ ' ' :: rest.toList) =
      wordsFrom .outside (some w.toList) (' ' :: rest.toList) := by
    rw [hl, List.all_cons, Bool.and_eq_true] at h
    obtain ⟨hblank, hslash, hsingle, hdouble⟩ := (isPlain_iff c).mp h.1
    rw [hl, List.cons_append, wordsFrom]
    simp only [hblank, hslash, hsingle, hdouble, if_false, Bool.false_eq_true, Option.getD_none,
      List.nil_append]
    rw [wordsFrom_plain h.2]
    rfl
  have hblank : isBlank ' ' = true := rfl
  rw [words, hchars, hstart, wordsFrom, if_pos hblank, words]
  cases wordsFrom .outside none rest.toList with
  | none => rfl
  | some ws => simp

end SqlServerMcp.ShellWords
