import Mathlib.Data.List.Infix
import SqlServerMcp.FixedWidth

/-!
Text as lists of characters: splitting at a separator, trimming, padding and
decimal digits. A separator that does not occur in the words it joins makes the
joined text determine the words.
-/
namespace SqlServerMcp.Text

open FixedWidth

def startsWith (s pre : String) : Bool := decide (pre.toList <+: s.toList)

def endsWith (s suffix : String) : Bool := decide (suffix.toList <:+ s.toList)

def contains (s needle : String) : Bool := decide (needle.toList <:+: s.toList)

/-- The text before and after the first separator. -/
def splitOnce (sep : Char) : List Char → Option (List Char × List Char)
  | [] => none
  | c :: rest =>
    if c = sep then some ([], rest)
    else (splitOnce sep rest).map fun p => (c :: p.1, p.2)

/-- The text before and after the last separator. -/
def splitLast (sep : Char) (l : List Char) : Option (List Char × List Char) :=
  (splitOnce sep l.reverse).map fun p => (p.2.reverse, p.1.reverse)

/-- All words between separators; a text without one is a single word. -/
def splitAll (sep : Char) : List Char → List (List Char)
  | [] => [[]]
  | c :: rest =>
    if c = sep then [] :: splitAll sep rest
    else match splitAll sep rest with
      | [] => [[c]]
      | word :: words => (c :: word) :: words

/-- The characters of Unicode's White_Space property. -/
def isWhitespace (c : Char) : Bool :=
  let n := c.toNat
  (9 ≤ n && n ≤ 13) || n == 0x20 || n == 0x85 || n == 0xA0 || n == 0x1680 ||
    (0x2000 ≤ n && n ≤ 0x200A) || n == 0x2028 || n == 0x2029 || n == 0x202F ||
    n == 0x205F || n == 0x3000

def trim (l : List Char) : List Char :=
  ((l.dropWhile isWhitespace).reverse.dropWhile isWhitespace).reverse

def padLeft (c : Char) (width : ℕ) (l : List Char) : List Char :=
  List.replicate (width - l.length) c ++ l

def padRight (c : Char) (width : ℕ) (l : List Char) : List Char :=
  l ++ List.replicate (width - l.length) c

def stripPrefix (pre s : String) : Option String :=
  if pre.toList <+: s.toList then some (String.ofList (s.toList.drop pre.length)) else none

def stripSuffix (suffix : Char) (l : List Char) : Option (List Char) :=
  match l.reverse with
  | c :: rest => if c = suffix then some rest.reverse else none
  | [] => none

def byteLength (l : List Char) : ℕ := (l.map Char.utf8Size).sum

def toAsciiLowercase (l : List Char) : List Char := l.map Char.toLower

/-- Why a decimal text is no integer of its width. -/
inductive ParseIntError where
  | empty
  | invalidDigit
  | posOverflow
  | negOverflow
  deriving DecidableEq

def ParseIntError.message : ParseIntError → String
  | .empty => "cannot parse integer from empty string"
  | .invalidDigit => "invalid digit found in string"
  | .posOverflow => "number too large to fit in target type"
  | .negOverflow => "number too small to fit in target type"

/-- The digits read so far stand in the accumulator, which has the sign of the
number and never leaves the width. -/
def readDigits (lo hi sign : ℤ) (overflow : ParseIntError) :
    List Char → ℤ → Except ParseIntError ℤ
  | [], acc => .ok acc
  | c :: rest, acc =>
    if c.isDigit then
      let next := acc * 10 + sign * (c.toNat - '0'.toNat : ℕ)
      if lo ≤ next ∧ next < hi then readDigits lo hi sign overflow rest next
      else .error overflow
    else .error .invalidDigit

/-- Checked reading of a decimal integer: an optional sign, then at least one
digit. A width without negative values has no minus sign. -/
def parseInt (lo hi : ℤ) (l : List Char) : Except ParseIntError (RangedInt lo hi) := do
  let value ← match l with
    | [] => .error .empty
    | ['+'] | ['-'] => .error .invalidDigit
    | '+' :: digits => readDigits lo hi 1 .posOverflow digits 0
    | '-' :: digits =>
      if lo < 0 then readDigits lo hi (-1) .negOverflow digits 0 else .error .invalidDigit
    | digits => readDigits lo hi 1 .posOverflow digits 0
  match RangedInt.tryFrom lo hi value with
  | some i => .ok i
  | none => .error .posOverflow

/-- The conversion at the end of `parseInt` lets the values of the range through. -/
theorem convert_eq_ok_iff {lo hi : ℤ} (value : Except ParseIntError ℤ) (n : RangedInt lo hi) :
    (do
      let v ← value
      match RangedInt.tryFrom lo hi v with
      | some i => .ok i
      | none => .error .posOverflow) = .ok n ↔ value = .ok n.val := by
  cases value with
  | error err => exact iff_of_false (by simp [bind, Except.bind]) (by simp)
  | ok v =>
    rw [Except.ok.injEq, eq_comm (a := v), ← RangedInt.tryFrom_eq_some_iff v n]
    cases htry : RangedInt.tryFrom lo hi v <;> simp [bind, Except.bind, htry]

theorem splitOnce_append (sep : Char) (l rest : List Char) (h : sep ∉ l) :
    splitOnce sep (l ++ sep :: rest) = some (l, rest) := by
  induction l with
  | nil => simp [splitOnce]
  | cons c l ih =>
    simp only [List.mem_cons, not_or] at h
    simp [splitOnce, Ne.symm h.1, ih h.2]

theorem splitOnce_eq_some {sep : Char} {l a b : List Char} (h : splitOnce sep l = some (a, b)) :
    l = a ++ sep :: b := by
  induction l generalizing a b with
  | nil => contradiction
  | cons c l ih =>
    rw [splitOnce] at h
    by_cases hc : c = sep
    · rw [if_pos hc] at h
      obtain ⟨ha, hb⟩ := Prod.mk.inj (Option.some.inj h)
      rw [← ha, ← hb, hc, List.nil_append]
    · rw [if_neg hc] at h
      obtain ⟨p, hp, heq⟩ := Option.map_eq_some_iff.mp h
      obtain ⟨ha, hb⟩ := Prod.mk.inj heq
      rw [← ha, ← hb, List.cons_append, ← ih hp]

theorem splitOnce_of_notMem (sep : Char) {l : List Char} (h : sep ∉ l) :
    splitOnce sep l = none := by
  induction l with
  | nil => rfl
  | cons c l ih =>
    simp only [List.mem_cons, not_or] at h
    simp [splitOnce, Ne.symm h.1, ih h.2]

theorem splitLast_append (sep : Char) (l : List Char) {rest : List Char} (h : sep ∉ rest) :
    splitLast sep (l ++ sep :: rest) = some (l, rest) := by
  have hrev : (l ++ sep :: rest).reverse = rest.reverse ++ sep :: l.reverse := by simp
  rw [splitLast, hrev, splitOnce_append sep rest.reverse l.reverse (by simpa using h),
    Option.map_some, List.reverse_reverse, List.reverse_reverse]

theorem splitLast_of_notMem (sep : Char) {l : List Char} (h : sep ∉ l) :
    splitLast sep l = none := by
  rw [splitLast, splitOnce_of_notMem sep (by simpa using h), Option.map_none]

theorem splitAll_of_notMem (sep : Char) {l : List Char} (h : sep ∉ l) :
    splitAll sep l = [l] := by
  induction l with
  | nil => rfl
  | cons c l ih =>
    simp only [List.mem_cons, not_or] at h
    simp [splitAll, Ne.symm h.1, ih h.2]

theorem splitAll_append (sep : Char) {l : List Char} (rest : List Char) (h : sep ∉ l) :
    splitAll sep (l ++ sep :: rest) = l :: splitAll sep rest := by
  induction l with
  | nil => simp [splitAll]
  | cons c l ih =>
    simp only [List.mem_cons, not_or] at h
    simp [splitAll, Ne.symm h.1, ih h.2]

theorem stripSuffix_concat (suffix : Char) (l : List Char) :
    stripSuffix suffix (l ++ [suffix]) = some l := by
  simp [stripSuffix]

theorem dropWhile_eq_self {p : Char → Bool} {l : List Char} (h : ∀ c ∈ l, p c = false) :
    l.dropWhile p = l := by
  cases l with
  | nil => rfl
  | cons c l => simp [h c List.mem_cons_self]

/-- Text without blanks is trimmed already. -/
theorem trim_eq_self {l : List Char} (h : ∀ c ∈ l, isWhitespace c = false) : trim l = l := by
  rw [trim, dropWhile_eq_self h, dropWhile_eq_self, List.reverse_reverse]
  intro c hc
  exact h c (List.mem_reverse.mp hc)

theorem stripPrefix_append (pre s : String) : stripPrefix pre (pre ++ s) = some s := by
  have hprefix : pre.toList <+: (pre ++ s).toList := by
    rw [String.toList_append]
    exact List.prefix_append _ _
  have hdrop : (pre ++ s).toList.drop pre.length = s.toList := by
    rw [String.toList_append, ← String.length_toList, List.drop_left]
  simp only [stripPrefix, hprefix, if_true, hdrop, String.ofList_toList]

/-- Words without the separator are determined by the text they start. -/
theorem append_sep_injective {sep : Char} {a b rest rest' : List Char} (ha : sep ∉ a)
    (hb : sep ∉ b) (h : a ++ sep :: rest = b ++ sep :: rest') : a = b ∧ rest = rest' := by
  have hsplit := congrArg (splitOnce sep) h
  rw [splitOnce_append sep a rest ha, splitOnce_append sep b rest' hb] at hsplit
  exact Prod.mk.inj (Option.some.inj hsplit)

/-- Two joined texts are equal when their words are, or when a part of one word,
cut at a separator, moves over to the other. -/
theorem append_sep_eq_iff (sep : Char) (a b rest rest' : List Char) :
    a ++ sep :: rest = b ++ sep :: rest' ↔
      (a = b ∧ rest = rest') ∨ (∃ t, b = a ++ sep :: t ∧ rest = t ++ sep :: rest') ∨
        ∃ t, a = b ++ sep :: t ∧ rest' = t ++ sep :: rest := by
  constructor
  · intro h
    rcases List.append_eq_append_iff.mp h with ⟨u, hb, hu⟩ | ⟨u, ha, hu⟩
    · cases u with
      | nil =>
        rw [List.append_nil] at hb
        exact Or.inl ⟨hb.symm, (List.cons.inj hu).2⟩
      | cons c t =>
        obtain ⟨rfl, hrest⟩ := List.cons.inj hu
        exact Or.inr (Or.inl ⟨t, hb, hrest⟩)
    · cases u with
      | nil =>
        rw [List.append_nil] at ha
        exact Or.inl ⟨ha, (List.cons.inj hu).2.symm⟩
      | cons c t =>
        obtain ⟨rfl, hrest⟩ := List.cons.inj hu
        exact Or.inr (Or.inr ⟨t, ha, hrest⟩)
  · intro h'
    obtain ⟨rfl, rfl⟩ | ⟨t, rfl, rfl⟩ | ⟨t, rfl, rfl⟩ := h'
    · rfl
    · rw [List.append_assoc, List.cons_append]
    · rw [List.append_assoc, List.cons_append]

theorem append_sep_string_eq_iff {sep : String} {c : Char} (hsep : sep.toList = [c])
    (a b rest rest' : String) :
    a ++ sep ++ rest = b ++ sep ++ rest' ↔
      (a = b ∧ rest = rest') ∨ (∃ t, b = a ++ sep ++ t ∧ rest = t ++ sep ++ rest') ∨
        ∃ t, a = b ++ sep ++ t ∧ rest' = t ++ sep ++ rest := by
  have hlist : ∀ x y : String, (x ++ sep ++ y).toList = x.toList ++ c :: y.toList := by
    intro x y
    rw [String.toList_append, String.toList_append, hsep, List.append_assoc]
    rfl
  have hmoved : ∀ x y z w : String,
      (∃ t : List Char, y.toList = x.toList ++ c :: t ∧ z.toList = t ++ c :: w.toList) ↔
        ∃ t : String, y = x ++ sep ++ t ∧ z = t ++ sep ++ w := by
    intro x y z w
    constructor
    · intro h
      obtain ⟨t, hy, hz⟩ := h
      refine ⟨String.ofList t, String.toList_injective ?_, String.toList_injective ?_⟩
      · rw [hlist, String.toList_ofList, hy]
      · rw [hlist, String.toList_ofList, hz]
    · intro h
      obtain ⟨t, rfl, rfl⟩ := h
      exact ⟨t.toList, hlist x t, hlist t w⟩
  rw [← String.toList_inj, hlist, hlist, append_sep_eq_iff, hmoved, hmoved,
    String.toList_inj, String.toList_inj]

/-- Texts with different last characters differ. -/
theorem append_ne_append {a b s t : String} {c d : Char} (hs : s.toList.getLast? = some c)
    (ht : t.toList.getLast? = some d) (h : c ≠ d) : a ++ s ≠ b ++ t := by
  intro heq
  have hlast := congrArg (fun x : String => x.toList.getLast?) heq
  simp only [String.toList_append, List.getLast?_append, hs, ht, Option.some_or] at hlast
  exact h (Option.some.inj hlast)

/-- A separator put into a text that has none can be taken out again. -/
theorem take_sep_drop_injective {sep : Char} {a b : List Char} {i j : ℕ} (ha : sep ∉ a)
    (hb : sep ∉ b) (h : a.take i ++ sep :: a.drop i = b.take j ++ sep :: b.drop j) : a = b := by
  obtain ⟨htake, hdrop⟩ := append_sep_injective (fun hmem => ha (List.mem_of_mem_take hmem))
    (fun hmem => hb (List.mem_of_mem_take hmem)) h
  rw [← List.take_append_drop i a, htake, hdrop, List.take_append_drop]

/-- A character outside the separator occurs in a joined text as often as in
its words. -/
theorem count_intercalate (c : Char) (sep : String) (words : List String)
    (h : c ∉ sep.toList) :
    (sep.intercalate words).toList.count c = (words.map fun w => w.toList.count c).sum := by
  have hsep : sep.toList.count c = 0 := List.count_eq_zero.mpr h
  rw [String.toList_intercalate]
  induction words with
  | nil => rfl
  | cons word rest ih =>
    cases rest with
    | nil => simp [List.intercalate]
    | cons next rest =>
      have hstep : sep.toList.intercalate ((word :: next :: rest).map String.toList) =
          word.toList ++ sep.toList ++
            sep.toList.intercalate ((next :: rest).map String.toList) := by
        simp [List.intercalate]
      rw [hstep, List.count_append, List.count_append, hsep, ih]
      simp

theorem toString_nat_toList (n : ℕ) : (toString n).toList = Nat.toDigits 10 n := by
  simp only [Nat.toString_eq_repr, Nat.toList_repr]

theorem toString_nat_injective : Function.Injective (fun n : ℕ => toString n) := by
  intro a b h
  have hdigits : Nat.toDigits 10 a = Nat.toDigits 10 b := by
    simpa only [toString_nat_toList] using congrArg String.toList h
  simpa only [Nat.ofDigitChars_ten_toDigits]
    using congrArg (fun digits => Nat.ofDigitChars 10 digits 0) hdigits

theorem isDigit_of_mem_toString {n : ℕ} {c : Char} (h : c ∈ (toString n).toList) :
    c.isDigit := by
  rw [toString_nat_toList] at h
  exact Nat.isDigit_of_mem_toDigits (by decide) (by decide) h

theorem length_padLeft (c : Char) (width : ℕ) (l : List Char) :
    (padLeft c width l).length = max width l.length := by
  rw [padLeft, List.length_append, List.length_replicate]
  omega

theorem isDigit_of_mem_padLeft {width n : ℕ} {c : Char}
    (h : c ∈ padLeft '0' width (toString n).toList) : c.isDigit := by
  rcases List.mem_append.mp h with hzero | hdigit
  · rw [List.eq_of_mem_replicate hzero]
    rfl
  · exact isDigit_of_mem_toString hdigit

/-- Leading zeros do not change the number that the digits give. -/
theorem padLeft_digits_injective {width n m : ℕ}
    (h : padLeft '0' width (toString n).toList = padLeft '0' width (toString m).toList) :
    n = m := by
  have hvalue : ∀ k : ℕ,
      Nat.ofDigitChars 10 (padLeft '0' width (toString k).toList) 0 = k := by
    intro k
    rw [padLeft, Nat.ofDigitChars_append, Nat.ofDigitChars_replicate_zero, mul_zero,
      toString_nat_toList, Nat.ofDigitChars_ten_toDigits]
  rw [← hvalue n, h, hvalue m]

/-- A name and a number joined by a separator that is no digit determine both:
the last separator is the joint. -/
theorem append_number_injective {sep : Char} (hsep : sep.isDigit = false)
    {a b : List Char} {n m : ℕ}
    (h : a ++ sep :: (toString n).toList = b ++ sep :: (toString m).toList) : a = b ∧ n = m := by
  have hnot : ∀ k : ℕ, sep ∉ (toString k).toList.reverse := by
    intro k hmem
    have hdigit := isDigit_of_mem_toString (List.mem_reverse.mp hmem)
    simp [hsep] at hdigit
  have hrev := congrArg List.reverse h
  simp only [List.reverse_append, List.reverse_cons, List.append_assoc,
    List.singleton_append] at hrev
  obtain ⟨hdigits, hname⟩ := append_sep_injective (hnot n) (hnot m) hrev
  refine ⟨List.reverse_injective hname, toString_nat_injective ?_⟩
  exact String.toList_injective (List.reverse_injective hdigits)

theorem append_number_string_injective {sep : String} {c : Char} (hsep : sep.toList = [c])
    (hdigit : c.isDigit = false) {a b : String} {n m : ℕ}
    (h : a ++ sep ++ toString n = b ++ sep ++ toString m) : a = b ∧ n = m := by
  have hchars := congrArg String.toList h
  simp only [String.toList_append, hsep, List.append_assoc, List.singleton_append] at hchars
  obtain ⟨hname, hnumber⟩ := append_number_injective hdigit hchars
  exact ⟨String.toList_injective hname, hnumber⟩

end SqlServerMcp.Text
