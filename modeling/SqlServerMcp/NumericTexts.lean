import SqlServerMcp.ExactNumerics

/-!
The texts that are taken for decimals. The reader takes off one sign, joins the
digits around the point, fills the scale with zeros and reads what it has as an
integer. That integer may have a sign of its own, and the zeros may be all of
its digits, so some texts that are no numerals are taken for numbers as well.
-/
namespace SqlServerMcp.NumericTexts

open Decimals ExactNumerics FixedWidth JsonValue Results SqlType SqlValue Text

section Joined

/-- The sign that is taken off a text, and what is left of it. -/
def splitSign : List Char → ℤ × List Char
  | '-' :: rest => (-1, rest)
  | '+' :: rest => (1, rest)
  | rest => (1, rest)

/-- What stands before and after the first point. -/
def splitPoint (unsigned : List Char) : List Char × List Char :=
  (splitOnce '.' unsigned).getD (unsigned, [])

/-- The digits on both sides of the point, filled up to the scale. -/
def joined (scale : ℕ) (unsigned : List Char) : List Char :=
  (splitPoint unsigned).1 ++ padRight '0' scale (splitPoint unsigned).2

/-- Texts without a digit, or with a sign in a wrong place, that are joined to
an integer all the same. -/
inductive Misformed (scale : ℕ) : List Char → ℤ → Prop
  | blank : Misformed scale [] 0
  | point : Misformed scale ['.'] 0
  | sign (positive : Bool) (hscale : 1 ≤ scale) : Misformed scale [signChar positive] 0
  | signPoint (positive : Bool) (hscale : 1 ≤ scale) : Misformed scale [signChar positive, '.'] 0
  | pointSign (positive : Bool) (hscale : 2 ≤ scale) : Misformed scale ['.', signChar positive] 0
  | secondSign (d : Decimal) (hsign : d.sign ≠ none) (hplaces : d.places.length ≤ scale) :
      Misformed scale d.text (d.unscaled scale)
  | signAfterPoint (d : Decimal) (hsign : d.sign ≠ none) (hfraction : d.fraction = none)
      (hplaces : d.whole.length + 1 ≤ scale) :
      Misformed scale ('.' :: d.text) (d.unscaled (scale - (d.whole.length + 1)))

/-- A numeral without a sign, with no more places than the scale. -/
def IsNumeral (scale : ℕ) (unsigned : List Char) (m : ℤ) : Prop :=
  ∃ d : Decimal, d.sign = none ∧ unsigned = d.text ∧ d.places.length ≤ scale ∧
    m = d.unscaled scale

/-- The texts that are joined to an integer, with that integer. -/
def Reads (scale : ℕ) (unsigned : List Char) (m : ℤ) : Prop :=
  IsNumeral scale unsigned m ∨ Misformed scale unsigned m

/-- Digits around a point, or with no point. -/
def pointed (whole : List Char) : Option (List Char) → List Char
  | none => whole
  | some places => whole ++ '.' :: places

theorem splitPoint_pointed {whole : List Char} (h : '.' ∉ whole) (fraction : Option (List Char)) :
    splitPoint (pointed whole fraction) = (whole, fraction.getD []) := by
  cases fraction with
  | none => simp only [splitPoint, pointed, splitOnce_of_notMem '.' h, Option.getD_none]
  | some places => simp only [splitPoint, pointed, splitOnce_append '.' _ _ h, Option.getD_some]

theorem splitPoint_cases (unsigned : List Char) :
    ∃ whole fraction, splitPoint unsigned = (whole, fraction.getD []) ∧
      unsigned = pointed whole fraction := by
  unfold splitPoint
  cases hsplit : splitOnce '.' unsigned with
  | none => exact ⟨unsigned, none, rfl, rfl⟩
  | some p => exact ⟨p.1, some p.2, rfl, splitOnce_eq_some hsplit⟩

theorem digits_of_joined {whole places : List Char} {scale : ℕ}
    (h : ∀ c ∈ whole ++ padRight '0' scale places, c.isDigit) :
    (∀ c ∈ whole, c.isDigit) ∧ ∀ c ∈ places, c.isDigit := by
  rw [padRight, List.forall_mem_append, List.forall_mem_append] at h
  exact ⟨h.1, h.2.1⟩

theorem digitsValue_fill (scale : ℕ) : digitsValue ([] ++ padRight '0' scale []) = 0 := by
  rw [padRight, List.nil_append, List.nil_append, digitsValue_zeros]

/-- Digits without a sign of their own come from a numeral, or from no digit. -/
theorem reads_of_digits {scale : ℕ} {whole : List Char} {fraction : Option (List Char)}
    (hplaces : (fraction.getD []).length ≤ scale)
    (hdigits : ∀ c ∈ whole ++ padRight '0' scale (fraction.getD []), c.isDigit) :
    Reads scale (pointed whole fraction)
      (digitsValue (whole ++ padRight '0' scale (fraction.getD []))) := by
  obtain ⟨hwhole, hfraction⟩ := digits_of_joined hdigits
  by_cases hempty : whole ++ fraction.getD [] = []
  · obtain ⟨rfl, hnone⟩ := List.append_eq_nil_iff.mp hempty
    rw [hnone, digitsValue_fill]
    cases fraction with
    | none => exact Or.inr .blank
    | some places =>
      obtain rfl : places = [] := hnone
      exact Or.inr .point
  · left
    refine ⟨⟨none, whole, fraction, hwhole, hfraction, hempty⟩, rfl, ?_, hplaces, ?_⟩
    · cases fraction <;> rfl
    · rw [← Decimal.digitsValue_padRight, Decimal.signFactor_of_unsigned _ rfl, one_mul]
      rfl

/-- A second sign in front of the digits. -/
theorem reads_of_secondSign {scale : ℕ} {positive : Bool} {whole : List Char}
    {fraction : Option (List Char)} (hplaces : (fraction.getD []).length ≤ scale)
    (hne : whole ++ padRight '0' scale (fraction.getD []) ≠ [])
    (hdigits : ∀ c ∈ whole ++ padRight '0' scale (fraction.getD []), c.isDigit) :
    Misformed scale (pointed (signChar positive :: whole) fraction)
      (signValue positive * digitsValue (whole ++ padRight '0' scale (fraction.getD []))) := by
  obtain ⟨hwhole, hfraction⟩ := digits_of_joined hdigits
  by_cases hempty : whole ++ fraction.getD [] = []
  · obtain ⟨rfl, hnone⟩ := List.append_eq_nil_iff.mp hempty
    rw [hnone] at hne
    have hscale : 1 ≤ scale := by
      cases scale with
      | zero => exact absurd rfl hne
      | succ n => omega
    rw [hnone, digitsValue_fill, Nat.cast_zero, mul_zero]
    cases fraction with
    | none => exact .sign positive hscale
    | some places =>
      obtain rfl : places = [] := hnone
      exact .signPoint positive hscale
  · let d : Decimal := ⟨some positive, whole, fraction, hwhole, hfraction, hempty⟩
    have htext : pointed (signChar positive :: whole) fraction = d.text := by
      rw [d.text_eq_cons rfl]
      cases fraction <;> rfl
    rw [htext, ← d.signFactor_eq rfl]
    have hvalue := d.digitsValue_padRight scale
    exact hvalue ▸ Misformed.secondSign d (Option.some_ne_none positive) hplaces

/-- A sign right after the point. -/
theorem reads_of_signAfterPoint {scale : ℕ} {positive : Bool} {places : List Char}
    (hplaces : places.length + 1 ≤ scale)
    (hne : padRight '0' (scale - 1) places ≠ [])
    (hdigits : ∀ c ∈ padRight '0' (scale - 1) places, c.isDigit) :
    Misformed scale ('.' :: signChar positive :: places)
      (signValue positive * digitsValue (padRight '0' (scale - 1) places)) := by
  by_cases hempty : places = []
  · subst hempty
    have hscale : 2 ≤ scale := by
      by_contra hsmall
      have hnone : scale - 1 = 0 := by omega
      rw [hnone] at hne
      exact hne rfl
    have hzero : digitsValue (padRight '0' (scale - 1) []) = 0 := digitsValue_fill (scale - 1)
    rw [hzero, Nat.cast_zero, mul_zero]
    exact .pointSign positive hscale
  · have hdigits' : ∀ c ∈ places, c.isDigit := by
      intro c hc
      exact hdigits c (List.mem_append_left _ hc)
    let d : Decimal := ⟨some positive, places, none, hdigits', nofun, by simpa using hempty⟩
    have hfill : padRight '0' (scale - 1) places =
        places ++ padRight '0' (scale - (places.length + 1)) [] := by
      rw [padRight, padRight, List.nil_append, List.length_nil, Nat.sub_zero, Nat.sub_sub,
        Nat.add_comm 1]
    rw [hfill, ← d.signFactor_eq rfl]
    have hvalue := d.digitsValue_padRight (scale - (places.length + 1))
    have htext : '.' :: signChar positive :: places = '.' :: d.text := by
      rw [d.text_eq_cons rfl]
      rfl
    rw [htext]
    exact hvalue ▸ Misformed.signAfterPoint d (Option.some_ne_none positive) rfl hplaces

theorem fill_ne_signed (scale : ℕ) (positive : Bool) (digits : List Char) :
    padRight '0' scale [] ≠ signChar positive :: digits := by
  intro h
  have hmem : signChar positive ∈ padRight '0' scale [] := h ▸ List.mem_cons_self
  have hzero : signChar positive = '0' := List.eq_of_mem_replicate hmem
  cases positive <;> contradiction

/-- Whatever is joined to an integer is a numeral or one of the misformed
texts. -/
theorem reads_of_integerText {scale : ℕ} {unsigned : List Char} {m : ℤ}
    (hplaces : (splitPoint unsigned).2.length ≤ scale)
    (h : IntegerText (joined scale unsigned) m) : Reads scale unsigned m := by
  obtain ⟨whole, fraction, hsplit, rfl⟩ := splitPoint_cases unsigned
  rw [joined, hsplit] at h
  rw [hsplit] at hplaces
  dsimp only at h hplaces
  obtain ⟨digits, hne, hdigits, (⟨hjoined, rfl⟩ | ⟨positive, hjoined, rfl⟩)⟩ := h
  · subst hjoined
    exact reads_of_digits hplaces hdigits
  · right
    cases whole with
    | cons c whole =>
      obtain ⟨rfl, rfl⟩ := List.cons.inj hjoined
      exact reads_of_secondSign hplaces hne hdigits
    | nil =>
      -- The sign is the first digit after the point, or no digit at all.
      rw [List.nil_append] at hjoined
      cases fraction with
      | none => exact absurd hjoined (fill_ne_signed scale positive digits)
      | some places =>
        cases places with
        | nil => exact absurd hjoined (fill_ne_signed scale positive digits)
        | cons c places =>
          rw [Option.getD_some, padRight, List.cons_append] at hjoined
          obtain ⟨rfl, hrest⟩ := List.cons.inj hjoined
          have hfill : padRight '0' (scale - 1) places = digits := by
            rw [← hrest, padRight, List.length_cons, Nat.sub_sub, Nat.add_comm 1]
          subst hfill
          exact reads_of_signAfterPoint hplaces hne hdigits

theorem isDigit_padRight {scale : ℕ} {l : List Char} (h : ∀ c ∈ l, c.isDigit) :
    ∀ c ∈ padRight '0' scale l, c.isDigit := by
  rw [padRight, List.forall_mem_append]
  refine ⟨h, ?_⟩
  intro c hc
  rw [List.eq_of_mem_replicate hc]
  rfl

/-- The digits of a numeral with the scale filled up. -/
theorem joined_digits (d : Decimal) (scale : ℕ) :
    d.whole ++ padRight '0' scale d.places ≠ [] ∧
      ∀ c ∈ d.whole ++ padRight '0' scale d.places, c.isDigit := by
  constructor
  · rw [padRight, ← List.append_assoc]
    exact List.append_ne_nil_of_left_ne_nil d.nonempty _
  · rw [List.forall_mem_append]
    exact ⟨d.whole_digits, isDigit_padRight d.fraction_digits⟩

theorem point_notMem_whole (d : Decimal) : '.' ∉ d.whole := by
  intro h
  have hdigit := d.whole_digits '.' h
  contradiction

theorem point_ne_signChar (positive : Bool) : '.' ≠ signChar positive := by
  cases positive <;> decide

/-- A text in the grammar passes the check of its places, and is joined to its
integer or, where it has no digit and no scale to fill, to nothing. -/
structure JoinedTo (scale : ℕ) (unsigned : List Char) (m : ℤ) : Prop where
  places_le : byteLength (splitPoint unsigned).2 ≤ scale
  integer : joined scale unsigned = [] ∧ m = 0 ∨ IntegerText (joined scale unsigned) m

theorem joinedTo_fill {scale : ℕ} {unsigned : List Char} (h : splitPoint unsigned = ([], [])) :
    JoinedTo scale unsigned 0 := by
  refine ⟨by rw [h]; exact Nat.zero_le scale, ?_⟩
  rw [joined, h]
  cases scale with
  | zero => exact Or.inl ⟨rfl, rfl⟩
  | succ n =>
    right
    refine ⟨[] ++ padRight '0' (n + 1) [], nofun, isDigit_padRight nofun, Or.inl ⟨rfl, ?_⟩⟩
    rw [digitsValue_fill, Nat.cast_zero]

theorem joinedTo_signFill {scale : ℕ} {positive : Bool} {unsigned : List Char}
    (h : splitPoint unsigned = ([signChar positive], [])) (hscale : 1 ≤ scale) :
    JoinedTo scale unsigned 0 := by
  refine ⟨by rw [h]; exact Nat.zero_le scale, Or.inr ?_⟩
  rw [joined, h]
  refine (integerText_signed positive (padRight '0' scale []) 0).mpr
    ⟨?_, isDigit_padRight nofun, ?_⟩
  · cases scale with
    | zero => omega
    | succ n => nofun
  · have hzero : digitsValue (padRight '0' scale []) = 0 := digitsValue_fill scale
    rw [hzero, Nat.cast_zero, mul_zero]

theorem joinedTo_unsigned {d : Decimal} {scale : ℕ} (hsign : d.sign = none)
    (hplaces : d.places.length ≤ scale) : JoinedTo scale d.text (d.unscaled scale) := by
  have hsplit : splitPoint d.text = (d.whole, d.places) := by
    rw [d.text_of_unsigned hsign]
    exact splitPoint_pointed (point_notMem_whole d) d.fraction
  obtain ⟨hne, hdigits⟩ := joined_digits d scale
  constructor
  · rw [hsplit, byteLength_places]
    exact hplaces
  · right
    rw [joined, hsplit]
    refine ⟨_, hne, hdigits, Or.inl ⟨rfl, ?_⟩⟩
    rw [← d.digitsValue_padRight scale, d.signFactor_of_unsigned hsign, one_mul]

theorem joinedTo_secondSign {d : Decimal} {scale : ℕ} {positive : Bool}
    (hsign : d.sign = some positive) (hplaces : d.places.length ≤ scale) :
    JoinedTo scale d.text (d.unscaled scale) := by
  have hpoint : '.' ∉ signChar positive :: d.whole := by
    rw [List.mem_cons, not_or]
    exact ⟨point_ne_signChar positive, point_notMem_whole d⟩
  have hsplit : splitPoint d.text = (signChar positive :: d.whole, d.places) := by
    have htext : d.text = pointed (signChar positive :: d.whole) d.fraction := by
      rw [d.text_eq_cons hsign, Decimal.unsignedText]
      cases d.fraction <;> rfl
    rw [htext]
    exact splitPoint_pointed hpoint d.fraction
  obtain ⟨hne, hdigits⟩ := joined_digits d scale
  constructor
  · rw [hsplit, byteLength_places]
    exact hplaces
  · right
    rw [joined, hsplit]
    refine (integerText_signed positive _ _).mpr ⟨hne, hdigits, ?_⟩
    rw [← d.digitsValue_padRight scale, d.signFactor_eq hsign]
    rfl

theorem byteLength_signChar_cons (positive : Bool) (places : List Char) :
    byteLength (signChar positive :: places) = byteLength places + 1 := by
  rw [byteLength, List.map_cons, List.sum_cons, Nat.add_comm]
  cases positive <;> rfl

theorem byteLength_digits {l : List Char} (h : ∀ c ∈ l, c.isDigit) : byteLength l = l.length := by
  rw [byteLength, List.map_congr_left fun c hc => (isDigit_plain (h c hc)).2.2.2.2.2]
  simp

theorem splitPoint_point (places : List Char) : splitPoint ('.' :: places) = ([], places) :=
  splitPoint_pointed (List.not_mem_nil) (some places)

theorem joinedTo_signAfterPoint {positive : Bool} {places : List Char} {scale : ℕ} {m : ℤ}
    (hplaces : places.length + 1 ≤ scale) (hdigits : ∀ c ∈ places, c.isDigit)
    (hne : padRight '0' (scale - 1) places ≠ [])
    (hm : m = signValue positive * digitsValue (padRight '0' (scale - 1) places)) :
    JoinedTo scale ('.' :: signChar positive :: places) m := by
  constructor
  · rw [splitPoint_point, byteLength_signChar_cons, byteLength_digits hdigits]
    exact hplaces
  · right
    have hfill : joined scale ('.' :: signChar positive :: places) =
        signChar positive :: padRight '0' (scale - 1) places := by
      rw [joined, splitPoint_point, padRight, padRight, List.length_cons, Nat.sub_sub,
        Nat.add_comm 1]
      rfl
    rw [hfill]
    exact (integerText_signed positive _ _).mpr ⟨hne, isDigit_padRight hdigits, hm⟩

theorem joinedTo_misformed {scale : ℕ} {unsigned : List Char} {m : ℤ}
    (h : Misformed scale unsigned m) : JoinedTo scale unsigned m := by
  have hnotMem : ∀ positive, '.' ∉ [signChar positive] := fun positive hmem =>
    point_ne_signChar positive (List.mem_singleton.mp hmem)
  cases h with
  | blank => exact joinedTo_fill rfl
  | point => exact joinedTo_fill rfl
  | sign positive hscale =>
    exact joinedTo_signFill (splitPoint_pointed (hnotMem positive) none) hscale
  | signPoint positive hscale =>
    exact joinedTo_signFill (splitPoint_pointed (hnotMem positive) (some [])) hscale
  | pointSign positive hscale =>
    refine joinedTo_signAfterPoint (by simpa using Nat.le_of_succ_le hscale) nofun ?_ ?_
    · cases hfill : scale - 1 with
      | zero => omega
      | succ n => nofun
    · have hzero : digitsValue (padRight '0' (scale - 1) []) = 0 := digitsValue_fill (scale - 1)
      rw [hzero, Nat.cast_zero, mul_zero]
  | secondSign d hsign hplaces =>
    obtain ⟨positive, hpositive⟩ := Option.ne_none_iff_exists'.mp hsign
    exact joinedTo_secondSign hpositive hplaces
  | signAfterPoint d hsign hfraction hplaces =>
    obtain ⟨positive, hpositive⟩ := Option.ne_none_iff_exists'.mp hsign
    have hnone : d.places = [] := by rw [Decimal.places, hfraction, Option.getD_none]
    have hfill : padRight '0' (scale - 1) d.whole =
        d.whole ++ padRight '0' (scale - (d.whole.length + 1)) d.places := by
      rw [hnone, padRight, padRight, List.nil_append, List.length_nil, Nat.sub_zero, Nat.sub_sub,
        Nat.add_comm 1]
    have htext : d.text = signChar positive :: d.whole := by
      rw [d.text_eq_cons hpositive, Decimal.unsignedText, hfraction]
    obtain ⟨hne, -⟩ := joined_digits d (scale - (d.whole.length + 1))
    rw [htext]
    refine joinedTo_signAfterPoint hplaces d.whole_digits (hfill ▸ hne) ?_
    rw [hfill, ← d.signFactor_eq hpositive, d.digitsValue_padRight]

theorem joinedTo_of_reads {scale : ℕ} {unsigned : List Char} {m : ℤ}
    (h : Reads scale unsigned m) : JoinedTo scale unsigned m := by
  rcases h with ⟨d, hsign, rfl, hplaces, rfl⟩ | hmisformed
  · exact joinedTo_unsigned hsign hplaces
  · exact joinedTo_misformed hmisformed

theorem length_le_byteLength (l : List Char) : l.length ≤ byteLength l := by
  induction l with
  | nil => exact Nat.zero_le _
  | cons c rest ih =>
    have hpos : 0 < c.utf8Size := c.utf8Size_pos
    rw [byteLength, List.map_cons, List.sum_cons, List.length_cons]
    rw [byteLength] at ih
    omega

/-- The grammar describes what is joined exactly. -/
theorem reads_iff_joinedTo (scale : ℕ) (unsigned : List Char) (m : ℤ) :
    Reads scale unsigned m ↔ JoinedTo scale unsigned m := by
  refine ⟨joinedTo_of_reads, ?_⟩
  intro h
  have hlength := (length_le_byteLength _).trans h.places_le
  rcases h.integer with ⟨hempty, rfl⟩ | hinteger
  · obtain ⟨whole, fraction, hsplit, rfl⟩ := splitPoint_cases unsigned
    rw [joined, hsplit] at hempty
    rw [hsplit] at hlength
    have hreads := @reads_of_digits scale whole fraction hlength
      (by dsimp only at hempty; rw [hempty]; exact nofun)
    dsimp only at hempty
    rw [hempty] at hreads
    exact hreads
  · exact reads_of_integerText hlength hinteger

end Joined

section Reading

/-- What is left of a text after its sign, read as a number of units. -/
def readUnscaled (scale : U8) (unsigned : List Char) : Except Fault ℤ :=
  if scale.val < byteLength (splitPoint unsigned).2 then
    .error (.error ("value '" ++ String.ofList unsigned ++
      "' has more fractional digits than the declared scale (" ++ toString scale.val ++ ")"))
  else if joined scale.val.toNat unsigned = [] then .ok 0
  else
    match parseInt (-2 ^ 127) (2 ^ 127) (joined scale.val.toNat unsigned) with
    | .ok i => .ok i.val
    | .error err => .error (.error err.message)

theorem parseNumeric_eq (overflowChecks : Bool) (text : String) (scale : U8) :
    parseNumeric overflowChecks text scale = (do
      let unscaled ← readUnscaled scale (splitSign (trim text.toList)).2
      let value ← product overflowChecks 127 ((splitSign (trim text.toList)).1 * unscaled)
      Numeric.newWithScale value scale) := by
  have hsplit : parseNumeric overflowChecks text scale = (do
      if scale.val < byteLength (splitPoint (splitSign (trim text.toList)).2).2 then
        .error (.error ("value '" ++ String.ofList (splitSign (trim text.toList)).2 ++
          "' has more fractional digits than the declared scale (" ++
          toString scale.val ++ ")"))
      let unscaled ← if joined scale.val.toNat (splitSign (trim text.toList)).2 = [] then .ok 0
        else
          match parseInt (-2 ^ 127) (2 ^ 127)
              (joined scale.val.toNat (splitSign (trim text.toList)).2) with
          | .ok i => .ok i.val
          | .error err => .error (.error err.message)
      let value ← product overflowChecks 127 ((splitSign (trim text.toList)).1 * unscaled)
      Numeric.newWithScale value scale) := rfl
  generalize (splitSign (trim text.toList)).2 = unsigned at hsplit ⊢
  rw [hsplit, readUnscaled]
  dsimp only
  by_cases hlong : scale.val < byteLength (splitPoint unsigned).2
  · rw [if_pos hlong, if_pos hlong]
    rfl
  · rw [if_neg hlong, if_neg hlong]
    by_cases hempty : joined scale.val.toNat unsigned = []
    · rw [if_pos hempty, if_pos hempty]
    · rw [if_neg hempty, if_neg hempty]
      cases parseInt (-2 ^ 127) (2 ^ 127) (joined scale.val.toNat unsigned) <;> rfl

theorem readUnscaled_eq_ok_iff (scale : U8) (unsigned : List Char) (m : ℤ) :
    readUnscaled scale unsigned = .ok m ↔
      Reads scale.val.toNat unsigned m ∧ -2 ^ 127 ≤ m ∧ m < 2 ^ 127 := by
  have hlower := scale.lower
  rw [reads_iff_joinedTo, readUnscaled]
  split
  · rename_i hlong
    refine iff_of_false nofun ?_
    intro h
    have hplaces := h.1.places_le
    omega
  · rename_i hshort
    have hplaces : byteLength (splitPoint unsigned).2 ≤ scale.val.toNat := by omega
    split
    · rename_i hempty
      constructor
      · intro h
        obtain rfl := Except.ok.inj h
        exact ⟨⟨hplaces, Or.inl ⟨hempty, rfl⟩⟩, by norm_num, by norm_num⟩
      · intro h
        rcases h.1.integer with ⟨-, rfl⟩ | hinteger
        · rfl
        · rw [hempty] at hinteger
          exact absurd hinteger (integerText_nil m)
    · rename_i hne
      have hread := @parseInt_eq_ok_iff (-2 ^ 127) (2 ^ 127) (by norm_num)
        (by norm_num) (joined scale.val.toNat unsigned)
      constructor
      · intro h
        cases hparse : parseInt (-2 ^ 127) (2 ^ 127) (joined scale.val.toNat unsigned) with
        | error err =>
          rw [hparse] at h
          contradiction
        | ok n =>
          rw [hparse] at h
          obtain rfl := Except.ok.inj h
          exact ⟨⟨hplaces, Or.inr ((hread n).mp hparse)⟩, n.lower, n.upper⟩
      · intro h
        obtain ⟨hjoined, hm, hm'⟩ := h
        rcases hjoined.integer with ⟨hempty, -⟩ | hinteger
        · exact absurd hempty hne
        · rw [(hread ⟨m, hm, hm'⟩).mpr hinteger]

/-- Whatever is not read is an error that is returned. -/
theorem readUnscaled_eq_error {scale : U8} {unsigned : List Char} {fault : Fault}
    (h : readUnscaled scale unsigned = .error fault) : ∃ message, fault = .error message := by
  unfold readUnscaled at h
  split at h
  · exact ⟨_, (Except.error.inj h).symm⟩
  · split at h
    · contradiction
    · split at h
      · contradiction
      · exact ⟨_, (Except.error.inj h).symm⟩

/-- The number of units that a text is taken for, before it is checked that it
has the width with its sign. -/
def Takes (scale : ℕ) (text : List Char) (v : ℤ) : Prop :=
  ∃ m, Reads scale (splitSign (trim text)).2 m ∧ -2 ^ 127 ≤ m ∧ m < 2 ^ 127 ∧
    v = (splitSign (trim text)).1 * m

theorem splitSign_fst (l : List Char) : (splitSign l).1 = 1 ∨ (splitSign l).1 = -1 := by
  unfold splitSign
  split
  · exact Or.inr rfl
  · exact Or.inl rfl
  · exact Or.inl rfl

theorem splitSign_text (d : Decimal) : splitSign d.text = (d.signFactor, d.unsignedText) :=
  sign_text d

/-- The number of units is the largest of the width with a sign too many: only
a number at the lower end of the width leaves it with its sign changed. -/
theorem Takes.bounds {scale : ℕ} {text : List Char} {v : ℤ} (h : Takes scale text v) :
    -2 ^ 127 ≤ v ∧ v ≤ 2 ^ 127 := by
  obtain ⟨m, -, hm, hm', rfl⟩ := h
  rcases splitSign_fst (trim text) with hsign | hsign <;> rw [hsign] <;> omega

section Build

variable (overflowChecks : Bool)

/-- A product that is no larger than the number after the width is kept, or it
is that number, which wraps around to the smallest one. -/
theorem product_eq_ok_iff {n : ℕ} {v : ℤ} (hlower : -2 ^ n ≤ v) (hupper : v ≤ 2 ^ n)
    (value : RangedInt (-2 ^ n) (2 ^ n)) :
    product overflowChecks n v = .ok value ↔
      v < 2 ^ n ∧ value.val = v ∨
        overflowChecks = false ∧ v = 2 ^ n ∧ value.val = -2 ^ n := by
  rcases lt_or_eq_of_le hupper with hlt | rfl
  · obtain ⟨value', hproduct, hval⟩ := product_of_bounds overflowChecks hlower hlt
    rw [hproduct, Except.ok.injEq]
    constructor
    · rintro rfl
      exact Or.inl ⟨hlt, hval⟩
    · rintro (⟨-, heq⟩ | ⟨-, heq, -⟩)
      · exact RangedInt.ext (hval.trans heq.symm)
      · omega
  · have hwrapped := RangedInt.wrapSigned_pow n
    cases overflowChecks with
    | true => simp [product_pow]
    | false =>
      rw [product_pow, if_neg Bool.false_ne_true, Except.ok.injEq]
      constructor
      · rintro rfl
        exact Or.inr ⟨rfl, rfl, hwrapped⟩
      · rintro (⟨hlt, -⟩ | ⟨-, -, heq⟩)
        · omega
        · exact RangedInt.ext (hwrapped.trans heq.symm)

/-- The only number that is not bound is the one after the width, where the
build checks it. -/
theorem product_eq_error_iff {n : ℕ} {v : ℤ} (hlower : -2 ^ n ≤ v) (hupper : v ≤ 2 ^ n)
    (fault : Fault) :
    product overflowChecks n v = .error fault ↔
      overflowChecks = true ∧ v = 2 ^ n ∧
        fault = .panic "attempt to multiply with overflow" := by
  rcases lt_or_eq_of_le hupper with hlt | rfl
  · obtain ⟨value, hproduct, -⟩ := product_of_bounds overflowChecks hlower hlt
    rw [hproduct]
    refine iff_of_false nofun ?_
    rintro ⟨-, heq, -⟩
    omega
  · cases overflowChecks with
    | true => simp [product_pow, eq_comm]
    | false => simp [product_pow]

/-- What comes of a text, by the number that it is taken for. -/
theorem parseNumeric_of_takes {scale : U8} {text : String} {v : ℤ}
    (h : Takes scale.val.toNat text.toList v) :
    parseNumeric overflowChecks text scale = (do
      let value ← product overflowChecks 127 v
      Numeric.newWithScale value scale) := by
  obtain ⟨m, hreads, hm, hm', rfl⟩ := h
  rw [parseNumeric_eq, (readUnscaled_eq_ok_iff scale _ m).mpr ⟨hreads, hm, hm'⟩, ok_bind]

/-- Every other text is an error that is returned. -/
theorem parseNumeric_of_not_takes {scale : U8} {text : String}
    (h : ∀ v, ¬ Takes scale.val.toNat text.toList v) :
    ∃ message, parseNumeric overflowChecks text scale = .error (.error message) := by
  rw [parseNumeric_eq]
  cases hread : readUnscaled scale (splitSign (trim text.toList)).2 with
  | error fault =>
    obtain ⟨message, rfl⟩ := readUnscaled_eq_error hread
    exact ⟨message, rfl⟩
  | ok m =>
    obtain ⟨hreads, hm, hm'⟩ := (readUnscaled_eq_ok_iff scale _ m).mp hread
    exact absurd ⟨m, hreads, hm, hm', rfl⟩ (h _)

theorem newWithScale_eq_ok_iff (value : I128) (scale : U8) (n : Numeric) :
    Numeric.newWithScale value scale = .ok n ↔ n.value = value ∧ n.scale = scale := by
  unfold Numeric.newWithScale
  split
  · rw [Except.ok.injEq]
    cases n
    simp only [Numeric.mk.injEq, eq_comm]
  · rename_i hscale
    refine iff_of_false nofun ?_
    intro h
    exact hscale (h.2 ▸ n.scale_lt)

theorem newWithScale_panics {scale : U8} (h : 38 ≤ scale.val) (value : I128) :
    ∃ message, Numeric.newWithScale value scale = .error (.panic message) := by
  have hscale : ¬ scale.val < 38 := by omega
  exact ⟨_, dif_neg hscale⟩

/-- A text that is taken for a number is bound, or the reading ends in a panic. -/
theorem parseNumeric_ne_error {scale : U8} {text : String} {v : ℤ}
    (h : Takes scale.val.toNat text.toList v) (message : String) :
    parseNumeric overflowChecks text scale ≠ .error (.error message) := by
  obtain ⟨hlower, hupper⟩ := h.bounds
  rw [parseNumeric_of_takes overflowChecks h]
  cases hproduct : product overflowChecks 127 v with
  | error fault =>
    obtain ⟨-, -, rfl⟩ := (product_eq_error_iff overflowChecks hlower hupper fault).mp hproduct
    simp [error_bind]
  | ok value =>
    rw [ok_bind, Numeric.newWithScale]
    split <;> simp

/-- The number of units that a text is bound as: the one it is taken for, or the
smallest of the width where that one wraps around. -/
def Binds (scale : ℕ) (text : List Char) (v : ℤ) : Prop :=
  Takes scale text v ∧ v < 2 ^ 127 ∨
    overflowChecks = false ∧ Takes scale text (2 ^ 127) ∧ v = -2 ^ 127

variable {overflowChecks}

theorem Binds.bounds {scale : ℕ} {text : List Char} {v : ℤ}
    (h : Binds overflowChecks scale text v) : -2 ^ 127 ≤ v ∧ v < 2 ^ 127 := by
  rcases h with ⟨htakes, hlt⟩ | ⟨-, -, rfl⟩
  · exact ⟨htakes.bounds.1, hlt⟩
  · norm_num

variable (overflowChecks)

/-- A text is bound as its number of units, at a scale that the driver takes. -/
theorem parseNumeric_eq_ok_iff (text : String) (scale : U8) (n : Numeric) :
    parseNumeric overflowChecks text scale = .ok n ↔
      Binds overflowChecks scale.val.toNat text.toList n.value.val ∧ n.scale = scale := by
  constructor
  · intro h
    by_cases htakes : ∃ v, Takes scale.val.toNat text.toList v
    · obtain ⟨v, hv⟩ := htakes
      obtain ⟨hlower, hupper⟩ := hv.bounds
      rw [parseNumeric_of_takes overflowChecks hv] at h
      obtain ⟨value, hproduct, hn⟩ := (bind_eq_ok _ _ _).mp h
      obtain ⟨rfl, hscale⟩ := (newWithScale_eq_ok_iff value scale n).mp hn
      refine ⟨?_, hscale⟩
      rcases (product_eq_ok_iff overflowChecks hlower hupper _).mp hproduct with
        ⟨hlt, hval⟩ | ⟨hbuild, rfl, hval⟩
      · rw [hval]
        exact Or.inl ⟨hv, hlt⟩
      · exact Or.inr ⟨hbuild, hv, hval⟩
    · obtain ⟨message, herror⟩ := parseNumeric_of_not_takes overflowChecks (not_exists.mp htakes)
      rw [herror] at h
      contradiction
  · intro h
    obtain ⟨hbinds, rfl⟩ := h
    have hn := (newWithScale_eq_ok_iff n.value n.scale n).mpr ⟨rfl, rfl⟩
    rcases hbinds with ⟨htakes, hlt⟩ | ⟨hbuild, htakes, hval⟩
    · obtain ⟨hlower, hupper⟩ := htakes.bounds
      have hproduct :=
        (product_eq_ok_iff overflowChecks hlower hupper n.value).mpr (Or.inl ⟨hlt, rfl⟩)
      rw [parseNumeric_of_takes overflowChecks htakes, hproduct, ok_bind, hn]
    · obtain ⟨hlower, hupper⟩ := htakes.bounds
      have hproduct := (product_eq_ok_iff overflowChecks hlower hupper n.value).mpr
        (Or.inr ⟨hbuild, rfl, hval⟩)
      rw [parseNumeric_of_takes overflowChecks htakes, hproduct, ok_bind, hn]

/-- The reading ends in a panic when the number leaves the width with its sign
in a build that checks it, or the driver does not take the scale. -/
theorem parseNumeric_panics_iff (text : String) (scale : U8) :
    (∃ message, parseNumeric overflowChecks text scale = .error (.panic message)) ↔
      ∃ v, Takes scale.val.toNat text.toList v ∧
        (overflowChecks = true ∧ v = 2 ^ 127 ∨ 38 ≤ scale.val) := by
  constructor
  · intro h
    obtain ⟨message, hpanic⟩ := h
    by_cases htakes : ∃ v, Takes scale.val.toNat text.toList v
    · obtain ⟨v, hv⟩ := htakes
      obtain ⟨hlower, hupper⟩ := hv.bounds
      refine ⟨v, hv, ?_⟩
      rw [parseNumeric_of_takes overflowChecks hv] at hpanic
      cases hproduct : product overflowChecks 127 v with
      | error fault =>
        obtain ⟨hbuild, hv', -⟩ :=
          (product_eq_error_iff overflowChecks hlower hupper fault).mp hproduct
        exact Or.inl ⟨hbuild, hv'⟩
      | ok value =>
        right
        by_contra hscale
        rw [hproduct, ok_bind, Numeric.newWithScale, dif_pos (not_le.mp hscale)] at hpanic
        contradiction
    · obtain ⟨message', herror⟩ := parseNumeric_of_not_takes overflowChecks (not_exists.mp htakes)
      rw [herror] at hpanic
      simp at hpanic
  · intro h
    obtain ⟨v, hv, hcause⟩ := h
    obtain ⟨hlower, hupper⟩ := hv.bounds
    rw [parseNumeric_of_takes overflowChecks hv]
    cases hproduct : product overflowChecks 127 v with
    | error fault =>
      obtain ⟨-, -, rfl⟩ := (product_eq_error_iff overflowChecks hlower hupper fault).mp hproduct
      exact ⟨_, rfl⟩
    | ok value =>
      rcases hcause with ⟨hbuild, hv'⟩ | hscale
      · rw [(product_eq_error_iff overflowChecks hlower hupper _).mpr ⟨hbuild, hv', rfl⟩]
          at hproduct
        contradiction
      · exact newWithScale_panics hscale value

end Build

end Reading

end SqlServerMcp.NumericTexts
