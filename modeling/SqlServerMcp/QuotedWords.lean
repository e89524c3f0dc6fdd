import Mathlib.Data.List.Basic

/-!
Words in brackets, one after the other with a separator in between. A closing
bracket within a word is doubled, and a single one ends the word. Whatever stands
in the words, they are read back as they were.
-/
namespace SqlServerMcp.QuotedWords

variable {A : Type*} [DecidableEq A]

/-- The characters around and between the words. What ends a word differs from
what separates two of them. -/
structure Style (A : Type*) where
  opening : A
  closing : A
  separator : A
  distinct : separator ≠ closing

section Reading

variable (closing : A)

def doubled (word : List A) : List A :=
  word.flatMap fun c => if c = closing then [closing, closing] else [c]

/-- A word after its opening bracket, and what follows its closing one. -/
def readBody : List A → Option (List A × List A)
  | [] => none
  | c :: rest =>
    if c = closing then
      match rest with
      | [] => some ([], [])
      | d :: tail =>
        if d = closing then (readBody tail).map fun p => (closing :: p.1, p.2)
        else some ([], rest)
    else (readBody rest).map fun p => (c :: p.1, p.2)

end Reading

namespace Style

variable (style : Style A)

def quote (word : List A) : List A :=
  style.opening :: (doubled style.closing word ++ [style.closing])

def join (words : List (List A)) : List A :=
  [style.separator].intercalate (words.map style.quote)

def readWord : List A → Option (List A × List A)
  | [] => none
  | c :: rest => if c = style.opening then readBody style.closing rest else none

/-- Up to a number of words that take up the whole text. -/
def readUpTo : ℕ → List A → Option (List (List A))
  | 0, _ => none
  | n + 1, l =>
    match style.readWord l with
    | none => none
    | some (word, []) => some [word]
    | some (word, c :: rest) =>
      if c = style.separator then (readUpTo n rest).map (word :: ·) else none

def read (l : List A) : Option (List (List A)) := style.readUpTo l.length l

end Style

theorem doubled_cons (closing c : A) (word : List A) :
    doubled closing (c :: word) =
      (if c = closing then [closing, closing] else [c]) ++ doubled closing word := rfl

theorem readBody_of_ne {closing c : A} (h : c ≠ closing) (rest : List A) :
    readBody closing (c :: rest) = (readBody closing rest).map fun p => (c :: p.1, p.2) := by
  rw [readBody.eq_def]
  exact if_neg h

theorem readBody_pair (closing : A) (rest : List A) :
    readBody closing (closing :: closing :: rest) =
      (readBody closing rest).map fun p => (closing :: p.1, p.2) := by
  simp only [readBody, if_true]

/-- A single closing bracket ends the word. -/
theorem readBody_closing (closing : A) {rest : List A} (h : rest.head? ≠ some closing) :
    readBody closing (closing :: rest) = some ([], rest) := by
  cases rest with
  | nil => simp only [readBody, if_true]
  | cons d tail =>
    have hd : d ≠ closing := fun heq => h (congrArg some heq)
    simp only [readBody, if_true, hd, if_false]

/-- A word ends at its closing bracket, whatever follows but another one. -/
theorem readBody_doubled (closing : A) (word : List A) {rest : List A}
    (hrest : rest.head? ≠ some closing) :
    readBody closing (doubled closing word ++ closing :: rest) = some (word, rest) := by
  induction word with
  | nil => exact readBody_closing closing hrest
  | cons c word ih =>
    rw [doubled_cons, List.append_assoc]
    by_cases hc : c = closing
    · rw [if_pos hc, hc]
      have hpair := readBody_pair closing (doubled closing word ++ closing :: rest)
      rw [ih, Option.map_some] at hpair
      exact hpair
    · rw [if_neg hc, List.singleton_append, readBody_of_ne hc, ih, Option.map_some]

namespace Style

variable {style : Style A}

theorem quote_append (word rest : List A) :
    style.quote word ++ rest =
      style.opening :: (doubled style.closing word ++ style.closing :: rest) := by
  rw [quote, List.cons_append, List.append_assoc, List.singleton_append]

theorem join_cons_cons (word next : List A) (words : List (List A)) :
    style.join (word :: next :: words) =
      style.quote word ++ style.separator :: style.join (next :: words) := by
  simp [join, List.intercalate]

theorem join_singleton (word : List A) : style.join [word] = style.quote word := by
  simp [join, List.intercalate]

/-- No content of a word gets out of its brackets. -/
theorem readWord_quote (word : List A) {rest : List A} (hrest : rest.head? ≠ some style.closing) :
    style.readWord (style.quote word ++ rest) = some (word, rest) := by
  rw [quote_append, readWord, if_pos rfl]
  exact readBody_doubled style.closing word hrest

theorem readUpTo_join {words : List (List A)} (hne : words ≠ []) {n : ℕ}
    (hn : words.length ≤ n) : style.readUpTo n (style.join words) = some words := by
  induction words generalizing n with
  | nil => exact absurd rfl hne
  | cons word words ih =>
    obtain ⟨n, rfl⟩ : ∃ m, n = m + 1 := ⟨n - 1, by rw [List.length_cons] at hn; omega⟩
    cases words with
    | nil =>
      have hread : style.readWord (style.quote word ++ []) = some (word, []) :=
        readWord_quote word nofun
      rw [List.append_nil] at hread
      rw [join_singleton, readUpTo, hread]
    | cons next words =>
      have hsep : (style.separator :: style.join (next :: words)).head? ≠ some style.closing :=
        fun h => style.distinct (Option.some.inj h)
      have hlater : (next :: words).length ≤ n := by
        rw [List.length_cons] at hn
        omega
      rw [join_cons_cons, readUpTo, readWord_quote word hsep]
      simp only [if_true, ih (List.cons_ne_nil next words) hlater, Option.map_some]

theorem length_le_join (words : List (List A)) : words.length ≤ (style.join words).length := by
  induction words with
  | nil => exact Nat.zero_le _
  | cons word words ih =>
    cases words with
    | nil =>
      rw [join_singleton, quote, List.length_cons, List.length_cons]
      exact Nat.succ_le_succ (Nat.zero_le _)
    | cons next words =>
      rw [join_cons_cons, List.length_append, List.length_cons, List.length_cons]
      exact Nat.le_add_left_of_le (Nat.succ_le_succ ih)

/-- Words in brackets are read back, and nothing is left of the text. -/
theorem read_join {words : List (List A)} (hne : words ≠ []) :
    style.read (style.join words) = some words :=
  readUpTo_join hne (length_le_join words)

/-- Different words make different texts. -/
theorem join_injective {words words' : List (List A)} (hne : words ≠ [])
    (h : style.join words' = style.join words) : words' = words := by
  have hread : style.read (style.join words) = some words := read_join hne
  rw [← h] at hread
  cases words' with
  | nil => contradiction
  | cons word words' =>
    rw [read_join (List.cons_ne_nil word words')] at hread
    exact Option.some.inj hread

end Style

end SqlServerMcp.QuotedWords
