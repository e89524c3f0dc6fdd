import Mathlib.Tactic.FieldSimp
import Mathlib.Tactic.Ring
import SqlServerMcp.Results
import SqlServerMcp.Text

/-!
Decimal numerals: digits with an optional sign and an optional point. A checked
integer reader takes every run of digits whose number fits its width.
-/
namespace SqlServerMcp.Decimals

open FixedWidth Text

/-- The number that a run of decimal digits gives. -/
def digitsValue (l : List Char) : ℕ := Nat.ofDigitChars 10 l 0

theorem digitsValue_append (l m : List Char) :
    digitsValue (l ++ m) = digitsValue l * 10 ^ m.length + digitsValue m := by
  rw [digitsValue, Nat.ofDigitChars_append, Nat.ofDigitChars_eq_ofDigitChars_zero, Nat.mul_comm]
  rfl

theorem digitsValue_zeros (n : ℕ) : digitsValue (List.replicate n '0') = 0 := by
  rw [digitsValue, Nat.ofDigitChars_replicate_zero, Nat.mul_zero]

theorem digitsValue_toString (n : ℕ) : digitsValue (toString n).toList = n := by
  rw [toString_nat_toList]
  exact Nat.ofDigitChars_ten_toDigits

theorem digitsValue_padLeft (width n : ℕ) :
    digitsValue (padLeft '0' width (toString n).toList) = n := by
  rw [padLeft, digitsValue_append, digitsValue_zeros, Nat.zero_mul, Nat.zero_add,
    digitsValue_toString]

theorem isDigit_plain {c : Char} (h : c.isDigit) :
    c ≠ '+' ∧ c ≠ '-' ∧ c ≠ '.' ∧ c ≠ ',' ∧ isWhitespace c = false ∧ c.utf8Size = 1 := by
  have hbounds : 48 ≤ c.toNat ∧ c.toNat ≤ 57 := by
    simp only [Char.isDigit, ge_iff_le, Bool.and_eq_true, decide_eq_true_eq, UInt32.le_iff_toNat_le]
      at h
    exact h
  have hne : ∀ d : Char, d.toNat < 48 → c ≠ d := by
    intro d hd heq
    rw [heq] at hbounds
    omega
  refine ⟨hne '+' (by decide), hne '-' (by decide), hne '.' (by decide), hne ',' (by decide),
    ?_, ?_⟩
  · simp [isWhitespace]
    omega
  · rw [Char.utf8Size_eq_one_iff, UInt32.le_iff_toNat_le]
    show c.toNat ≤ 127
    omega

theorem le_ofDigitChars (l : List Char) (acc : ℕ) : acc ≤ Nat.ofDigitChars 10 l acc := by
  rw [Nat.ofDigitChars_eq_ofDigitChars_zero]
  have hpos : 0 < 10 ^ l.length := Nat.pow_pos (by omega)
  have hmul : acc ≤ 10 ^ l.length * acc := Nat.le_mul_of_pos_left acc hpos
  omega

section Reading

variable {lo hi : ℤ}

/-- Digits under a sign are read exactly when their number fits: no accumulator
on the way is further from zero than the last one. -/
theorem readDigits_eq_ok_iff (overflow : ParseIntError) {sign : ℤ} (hsign : sign = 1 ∨ sign = -1)
    (hlo : lo ≤ 0) (hhi : 0 < hi) (l : List Char) (acc : ℕ) (v : ℤ) :
    readDigits lo hi sign overflow l (sign * acc) = .ok v ↔
      (∀ c ∈ l, c.isDigit) ∧ v = sign * Nat.ofDigitChars 10 l acc ∧
        (l = [] ∨ lo ≤ v ∧ v < hi) := by
  induction l generalizing acc with
  | nil =>
    rw [readDigits, Except.ok.injEq, Nat.ofDigitChars_nil]
    exact ⟨fun h => ⟨nofun, h.symm, Or.inl rfl⟩, fun h => h.2.1.symm⟩
  | cons c rest ih =>
    rw [Nat.ofDigitChars_cons, List.forall_mem_cons]
    by_cases hdigit : c.isDigit
    · have hnext : sign * (acc : ℤ) * 10 + sign * (c.toNat - '0'.toNat : ℕ) =
          sign * (10 * acc + (c.toNat - '0'.toNat) : ℕ) := by
        push_cast
        ring
      have hle := le_ofDigitChars rest (10 * acc + (c.toNat - '0'.toNat))
      simp only [readDigits, hdigit, if_true, true_and, hnext, reduceCtorEq, false_or]
      generalize 10 * acc + (c.toNat - '0'.toNat) = next at hle ⊢
      split
      · rename_i hrange
        rw [ih next]
        constructor
        · intro h
          obtain ⟨hrest, hv, hend⟩ := h
          refine ⟨hrest, hv, ?_⟩
          rcases hend with rfl | hfit
          · rw [hv]
            exact hrange
          · exact hfit
        · intro h
          exact ⟨h.1, h.2.1, Or.inr h.2.2⟩
      · rename_i hrange
        constructor
        · intro h
          contradiction
        · intro h
          obtain ⟨-, hv, hfit⟩ := h
          rcases hsign with rfl | rfl <;> omega
    · simp [readDigits, hdigit]

/-- Digits are read as long as the number fits. -/
theorem readDigits_of_isDigit (overflow : ParseIntError) (hlo : lo ≤ 0) {l : List Char}
    (h : ∀ c ∈ l, c.isDigit) (hfit : (digitsValue l : ℤ) < hi) :
    readDigits lo hi 1 overflow l 0 = .ok (digitsValue l : ℤ) := by
  have hhi : 0 < hi := by omega
  have hread := readDigits_eq_ok_iff overflow (Or.inl rfl) hlo hhi l 0 (digitsValue l)
  rw [one_mul, Nat.cast_zero] at hread
  exact hread.mpr ⟨h, (one_mul _).symm, Or.inr ⟨by omega, hfit⟩⟩

theorem ofDigitChars_lt {l : List Char} (h : ∀ c ∈ l, c.isDigit) (acc : ℕ) :
    Nat.ofDigitChars 10 l acc < (acc + 1) * 10 ^ l.length := by
  induction l generalizing acc with
  | nil => simp
  | cons c rest ih =>
    rw [List.forall_mem_cons] at h
    have hdigit : c.toNat - '0'.toNat ≤ 9 := by
      have hrange := h.1
      simp only [Char.isDigit, ge_iff_le, Bool.and_eq_true, decide_eq_true_eq,
        UInt32.le_iff_toNat_le] at hrange
      have hupper : c.toNat ≤ 57 := hrange.2
      have hzero : '0'.toNat = 48 := rfl
      omega
    have hstep := ih h.2 (10 * acc + (c.toNat - '0'.toNat))
    have hle : (10 * acc + (c.toNat - '0'.toNat) + 1) * 10 ^ rest.length ≤
        (acc + 1) * 10 * 10 ^ rest.length := Nat.mul_le_mul_right _ (by omega)
    rw [Nat.ofDigitChars_cons, List.length_cons, Nat.pow_succ']
    calc Nat.ofDigitChars 10 rest (10 * acc + (c.toNat - '0'.toNat))
        < (10 * acc + (c.toNat - '0'.toNat) + 1) * 10 ^ rest.length := hstep
      _ ≤ (acc + 1) * 10 * 10 ^ rest.length := hle
      _ = (acc + 1) * (10 * 10 ^ rest.length) := Nat.mul_assoc _ _ _

/-- So many digits stay below that power of ten. -/
theorem digitsValue_lt {l : List Char} (h : ∀ c ∈ l, c.isDigit) :
    digitsValue l < 10 ^ l.length := by
  have hlt := ofDigitChars_lt h 0
  rwa [Nat.zero_add, Nat.one_mul] at hlt

/-- The digits without the zeros in front of them. -/
def significant (digits : List Char) : List Char := digits.dropWhile (· = '0')

theorem digitsValue_cons (c : Char) (l : List Char) :
    digitsValue (c :: l) = digitsValue [c] * 10 ^ l.length + digitsValue l :=
  digitsValue_append [c] l

theorem digitsValue_significant (digits : List Char) :
    digitsValue (significant digits) = digitsValue digits := by
  induction digits with
  | nil => rfl
  | cons c rest ih =>
    by_cases hzero : c = '0'
    · have hvalue : digitsValue [c] = 0 := by rw [hzero]; rfl
      rw [digitsValue_cons, hvalue, Nat.zero_mul, Nat.zero_add, ← ih, significant,
        List.dropWhile_cons_of_pos (by simpa using hzero)]
      rfl
    · rw [significant, List.dropWhile_cons_of_neg (by simpa using hzero)]

theorem digitsValue_pos {c : Char} (hdigit : c.isDigit) (hzero : c ≠ '0') :
    0 < digitsValue [c] := by
  have hbounds : 48 ≤ c.toNat := by
    simp only [Char.isDigit, ge_iff_le, Bool.and_eq_true, decide_eq_true_eq, UInt32.le_iff_toNat_le]
      at hdigit
    exact hdigit.1
  have hne : c.toNat ≠ 48 := fun h => hzero (Char.toNat_inj.mp h)
  have hvalue : digitsValue [c] = c.toNat - 48 := by simp [digitsValue, Nat.ofDigitChars]
  omega

/-- A number is below a power of ten exactly when it has no more significant
digits than the exponent. -/
theorem digitsValue_lt_pow_iff {digits : List Char} (h : ∀ c ∈ digits, c.isDigit) (n : ℕ) :
    digitsValue digits < 10 ^ n ↔ (significant digits).length ≤ n := by
  have hdigits : ∀ c ∈ significant digits, c.isDigit := fun c hc =>
    h c ((List.dropWhile_suffix _).subset hc)
  rw [← digitsValue_significant]
  cases hcons : significant digits with
  | nil => exact iff_of_true (Nat.pow_pos (by omega)) (Nat.zero_le n)
  | cons c rest =>
    rw [hcons] at hdigits
    have hzero : c ≠ '0' := by
      have hhead := List.head?_dropWhile_not (fun c => decide (c = '0')) digits
      rw [show digits.dropWhile (fun c => decide (c = '0')) = c :: rest from hcons] at hhead
      simpa using hhead
    have hpos := digitsValue_pos (hdigits c List.mem_cons_self) hzero
    have hlower : 10 ^ rest.length ≤ digitsValue (c :: rest) := by
      rw [digitsValue_cons]
      exact (Nat.le_mul_of_pos_left _ hpos).trans (Nat.le_add_right _ _)
    have hupper := digitsValue_lt hdigits
    rw [List.length_cons] at hupper ⊢
    constructor
    · intro hlt
      exact (Nat.pow_lt_pow_iff_right (by omega)).mp (hlower.trans_lt hlt)
    · intro hle
      exact hupper.trans_le (Nat.pow_le_pow_right (by omega) hle)

/-- A text without a sign that is read as an integer is a run of digits. -/
theorem isDigit_of_parseInt (hlo : lo ≤ 0) (hhi : 0 < hi) {l : List Char} {n : RangedInt lo hi}
    (hplus : '+' ∉ l) (hminus : '-' ∉ l) (h : parseInt lo hi l = .ok n) :
    l ≠ [] ∧ ∀ c ∈ l, c.isDigit := by
  unfold parseInt at h
  dsimp only at h
  split at h
  · contradiction
  · contradiction
  · contradiction
  · exact absurd List.mem_cons_self hplus
  · exact absurd List.mem_cons_self hminus
  · rename_i hne _ _ _ _
    obtain ⟨value, hvalue, -⟩ := (Results.bind_eq_ok _ _ _).mp h
    have hread := readDigits_eq_ok_iff .posOverflow (Or.inl rfl) hlo hhi l 0 value
    rw [Nat.cast_zero, mul_zero] at hread
    exact ⟨hne, (hread.mp hvalue).1⟩

/-- A run of digits is an integer of every width that its number fits. -/
theorem parseInt_of_isDigit (lo hi : ℤ) (hlo : lo ≤ 0) {l : List Char} (hne : l ≠ [])
    (h : ∀ c ∈ l, c.isDigit) (hfit : (digitsValue l : ℤ) < hi) :
    ∃ n : RangedInt lo hi, parseInt lo hi l = .ok n ∧ n.val = digitsValue l := by
  obtain ⟨n, hn, hval⟩ := RangedInt.exists_tryFrom lo hi (i := (digitsValue l : ℤ))
    (by omega) hfit
  refine ⟨n, ?_, hval⟩
  have hread : readDigits lo hi 1 .posOverflow l 0 = .ok (digitsValue l : ℤ) :=
    readDigits_of_isDigit .posOverflow hlo h hfit
  cases l with
  | nil => exact absurd rfl hne
  | cons c rest =>
    obtain ⟨hplus, hminus, -⟩ := isDigit_plain (h c List.mem_cons_self)
    unfold parseInt
    split
    case h_6 => simp only [hread, Results.ok_bind, hn]
    all_goals simp_all

def signChar : Bool → Char
  | true => '+'
  | false => '-'

def signValue : Bool → ℤ
  | true => 1
  | false => -1

/-- A run of digits, perhaps after a sign, and its number. -/
def IntegerText (l : List Char) (m : ℤ) : Prop :=
  ∃ digits, digits ≠ [] ∧ (∀ c ∈ digits, c.isDigit) ∧
    (l = digits ∧ m = digitsValue digits ∨
      ∃ positive, l = signChar positive :: digits ∧ m = signValue positive * digitsValue digits)

theorem signChar_not_isDigit (positive : Bool) : ¬ (signChar positive).isDigit := by
  cases positive <;> decide

theorem integerText_nil (m : ℤ) : ¬ IntegerText [] m := by
  intro h
  obtain ⟨digits, hne, -, (⟨hl, -⟩ | ⟨_, hl, -⟩)⟩ := h
  · exact hne hl.symm
  · contradiction

theorem integerText_signed (positive : Bool) (digits : List Char) (m : ℤ) :
    IntegerText (signChar positive :: digits) m ↔
      digits ≠ [] ∧ (∀ c ∈ digits, c.isDigit) ∧ m = signValue positive * digitsValue digits := by
  constructor
  · intro h
    obtain ⟨digits', hne, hdigits, (⟨rfl, -⟩ | ⟨positive', hl, hm⟩)⟩ := h
    · exact absurd (hdigits _ List.mem_cons_self) (signChar_not_isDigit positive)
    · obtain ⟨hsign, rfl⟩ := List.cons.inj hl
      have hpositive : positive = positive' := by
        revert hsign
        cases positive <;> cases positive' <;> decide
      subst hpositive
      exact ⟨hne, hdigits, hm⟩
  · intro h
    exact ⟨digits, h.1, h.2.1, Or.inr ⟨positive, rfl, h.2.2⟩⟩

theorem integerText_plain {c : Char} (rest : List Char) (m : ℤ) (hplus : c ≠ '+')
    (hminus : c ≠ '-') :
    IntegerText (c :: rest) m ↔
      (∀ d ∈ c :: rest, d.isDigit) ∧ m = digitsValue (c :: rest) := by
  constructor
  · intro h
    obtain ⟨digits, -, hdigits, (⟨rfl, hm⟩ | ⟨positive, hl, -⟩)⟩ := h
    · exact ⟨hdigits, hm⟩
    · cases positive with
      | true => exact absurd (List.cons.inj hl).1 hplus
      | false => exact absurd (List.cons.inj hl).1 hminus
  · intro h
    exact ⟨c :: rest, List.cons_ne_nil c rest, h.1, Or.inl ⟨rfl, h.2⟩⟩

theorem integerText_unique {l : List Char} {m m' : ℤ} (h : IntegerText l m)
    (h' : IntegerText l m') : m = m' := by
  obtain ⟨digits, hne, hdigits, (⟨rfl, rfl⟩ | ⟨positive, rfl, rfl⟩)⟩ := h
  · obtain ⟨digits', -, -, (⟨rfl, rfl⟩ | ⟨positive, rfl, -⟩)⟩ := h'
    · rfl
    · exact absurd (hdigits _ List.mem_cons_self) (signChar_not_isDigit positive)
  · exact ((integerText_signed positive digits m').mp h').2.2.symm

theorem readDigits_start_eq_ok_iff (overflow : ParseIntError) {sign : ℤ}
    (hsign : sign = 1 ∨ sign = -1) (hlo : lo ≤ 0) (hhi : 0 < hi) (l : List Char)
    (n : RangedInt lo hi) :
    readDigits lo hi sign overflow l 0 = .ok n.val ↔
      (∀ c ∈ l, c.isDigit) ∧ n.val = sign * digitsValue l := by
  have hread := readDigits_eq_ok_iff overflow hsign hlo hhi l 0 n.val
  have hzero : sign * ((0 : ℕ) : ℤ) = 0 := by simp
  rw [hzero] at hread
  rw [hread]
  exact and_congr_right fun _ => and_iff_left (Or.inr ⟨n.lower, n.upper⟩)

/-- The integer reader takes exactly the texts of the integers in its width. -/
theorem parseInt_eq_ok_iff (hlo : lo < 0) (hhi : 0 < hi) (l : List Char) (n : RangedInt lo hi) :
    parseInt lo hi l = .ok n ↔ IntegerText l n.val := by
  unfold parseInt
  dsimp only
  split
  · exact iff_of_false (by simp [bind, Except.bind]) (integerText_nil _)
  · refine iff_of_false (by simp [bind, Except.bind]) ?_
    exact fun h => ((integerText_signed true [] _).mp h).1 rfl
  · refine iff_of_false (by simp [bind, Except.bind]) ?_
    exact fun h => ((integerText_signed false [] _).mp h).1 rfl
  · rename_i digits hne
    have hdigits : digits ≠ [] := by simpa using hne
    refine (convert_eq_ok_iff _ n).trans ?_
    rw [readDigits_start_eq_ok_iff _ (Or.inl rfl) (le_of_lt hlo) hhi digits]
    exact ((integerText_signed true digits n.val).trans (and_iff_right hdigits)).symm
  · rename_i digits hne
    have hdigits : digits ≠ [] := by simpa using hne
    rw [if_pos hlo]
    refine (convert_eq_ok_iff _ n).trans ?_
    rw [readDigits_start_eq_ok_iff _ (Or.inr rfl) (le_of_lt hlo) hhi digits]
    exact ((integerText_signed false digits n.val).trans (and_iff_right hdigits)).symm
  · rename_i hnil _ _ hplus hminus
    cases l with
    | nil => exact absurd rfl hnil
    | cons c rest =>
      have hplus' : c ≠ '+' := fun h => hplus rest (h ▸ rfl)
      have hminus' : c ≠ '-' := fun h => hminus rest (h ▸ rfl)
      refine (convert_eq_ok_iff _ n).trans ?_
      rw [readDigits_start_eq_ok_iff _ (Or.inl rfl) (le_of_lt hlo) hhi (c :: rest),
        integerText_plain rest n.val hplus' hminus', one_mul]

end Reading

/-- A numeral with at least one digit; its fraction may be missing with or
without the point. -/
structure Decimal where
  sign : Option Bool
  whole : List Char
  fraction : Option (List Char)
  whole_digits : ∀ c ∈ whole, c.isDigit
  fraction_digits : ∀ c ∈ fraction.getD [], c.isDigit
  nonempty : whole ++ fraction.getD [] ≠ []

namespace Decimal

variable (d : Decimal)

/-- The digits after the point. -/
def places : List Char := d.fraction.getD []

def unsignedText : List Char :=
  match d.fraction with
  | none => d.whole
  | some digits => d.whole ++ '.' :: digits

/-- The text of the numeral; a positive one may have a plus sign. -/
def text : List Char :=
  match d.sign with
  | none => d.unsignedText
  | some true => '+' :: d.unsignedText
  | some false => '-' :: d.unsignedText

def signFactor : ℤ := if d.sign = some false then -1 else 1

theorem signFactor_cases : d.signFactor = 1 ∨ d.signFactor = -1 := by
  unfold signFactor
  split
  · exact Or.inr rfl
  · exact Or.inl rfl

/-- The number without its point. -/
def mantissa : ℤ := d.signFactor * digitsValue (d.whole ++ d.places)

/-- The number as an integer of units of the given scale. -/
def unscaled (scale : ℕ) : ℤ := d.mantissa * 10 ^ (scale - d.places.length)

theorem isDigit_of_mem {c : Char} (h : c ∈ d.whole ++ d.places) : c.isDigit := by
  rcases List.mem_append.mp h with hwhole | hplaces
  · exact d.whole_digits c hwhole
  · exact d.fraction_digits c hplaces

theorem mem_unsignedText {c : Char} (h : c ∈ d.unsignedText) : c.isDigit ∨ c = '.' := by
  cases hfraction : d.fraction with
  | none =>
    rw [unsignedText, hfraction] at h
    exact Or.inl (d.whole_digits c h)
  | some digits =>
    rw [unsignedText, hfraction] at h
    rcases List.mem_append.mp h with hwhole | hrest
    · exact Or.inl (d.whole_digits c hwhole)
    · rcases List.mem_cons.mp hrest with hpoint | hdigit
      · exact Or.inr hpoint
      · left
        apply d.fraction_digits
        rw [hfraction]
        exact hdigit

theorem not_isWhitespace_of_mem_text {c : Char} (h : c ∈ d.text) : isWhitespace c = false := by
  have hunsigned : ∀ c ∈ d.unsignedText, isWhitespace c = false := by
    intro c hc
    rcases d.mem_unsignedText hc with hdigit | hpoint
    · exact (isDigit_plain hdigit).2.2.2.2.1
    · rw [hpoint]
      rfl
  rw [text] at h
  split at h
  · exact hunsigned c h
  · rcases List.mem_cons.mp h with hsign | hrest
    · rw [hsign]
      rfl
    · exact hunsigned c hrest
  · rcases List.mem_cons.mp h with hsign | hrest
    · rw [hsign]
      rfl
    · exact hunsigned c hrest

/-- The point parts a numeral into its digits. -/
theorem splitOnce_unsignedText :
    (splitOnce '.' d.unsignedText).getD (d.unsignedText, []) = (d.whole, d.places) := by
  have hwhole : '.' ∉ d.whole := by
    intro h
    have hdigit := d.whole_digits '.' h
    contradiction
  cases hfraction : d.fraction with
  | none =>
    rw [unsignedText, places, hfraction]
    simp only [splitOnce_of_notMem '.' hwhole, Option.getD_none]
  | some digits =>
    rw [unsignedText, places, hfraction]
    simp only [splitOnce_append '.' _ _ hwhole, Option.getD_some]

theorem head_unsignedText {c : Char} {rest : List Char} (h : d.unsignedText = c :: rest) :
    c ≠ '+' ∧ c ≠ '-' := by
  have hmem : c ∈ d.unsignedText := by
    rw [h]
    exact List.mem_cons_self
  rcases d.mem_unsignedText hmem with hdigit | hpoint
  · exact ⟨(isDigit_plain hdigit).1, (isDigit_plain hdigit).2.1⟩
  · rw [hpoint]
    decide

/-- Digits and the zeros that fill the scale give the number in its units. -/
theorem digitsValue_padRight (scale : ℕ) :
    d.signFactor * digitsValue (d.whole ++ padRight '0' scale d.places) = d.unscaled scale := by
  rw [padRight, ← List.append_assoc, digitsValue_append, digitsValue_zeros, List.length_replicate,
    Nat.add_zero, unscaled, mantissa]
  push_cast
  ring

/-- No digit is lost in the units of a scale that is long enough. -/
theorem unscaled_exact {scale : ℕ} (h : d.places.length ≤ scale) :
    d.unscaled scale * 10 ^ d.places.length = d.mantissa * 10 ^ scale := by
  rw [unscaled, mul_assoc, ← pow_add, Nat.sub_add_cancel h]

theorem natAbs_unscaled (scale : ℕ) :
    (d.unscaled scale).natAbs = digitsValue (d.whole ++ padRight '0' scale d.places) := by
  rw [← d.digitsValue_padRight scale, Int.natAbs_mul, Int.natAbs_natCast, signFactor]
  split <;> simp

/-- The number that the numeral denotes. -/
def value : ℚ := d.mantissa / 10 ^ d.places.length

theorem unscaled_div {scale : ℕ} (h : d.places.length ≤ scale) :
    (d.unscaled scale : ℚ) / 10 ^ scale = d.value := by
  have hexact : (d.unscaled scale : ℚ) * 10 ^ d.places.length = d.mantissa * 10 ^ scale := by
    exact_mod_cast d.unscaled_exact h
  rw [value, div_eq_div_iff (by positivity) (by positivity), hexact]

theorem text_eq_cons {positive : Bool} (h : d.sign = some positive) :
    d.text = signChar positive :: d.unsignedText := by
  rw [text, h]
  cases positive <;> rfl

theorem signFactor_eq {positive : Bool} (h : d.sign = some positive) :
    d.signFactor = signValue positive := by
  rw [signFactor, h]
  cases positive <;> rfl

theorem text_of_unsigned (h : d.sign = none) : d.text = d.unsignedText := by
  rw [text, h]

theorem signFactor_of_unsigned (h : d.sign = none) : d.signFactor = 1 := by
  rw [signFactor, h]
  rfl

end Decimal

end SqlServerMcp.Decimals
