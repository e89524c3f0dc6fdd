import SqlServerMcp.ColumnTypes
import SqlServerMcp.NumericTexts

/-!
Decimal parameters against what they are declared as: which texts are bound and
as which number, what a rendered decimal is read back as, whether the declared
precision bounds a parameter, and which arguments end in a panic.
-/
namespace SqlServerMcp.DecimalParams

open ColumnTypes Decimals ExactNumerics FixedWidth JsonValue NumericTexts Results SqlType SqlValue
  Text

section Texts

/-- The numeral without its sign. -/
def unsigned (d : Decimal) : Decimal := { d with sign := none }

theorem unsigned_unscaled (d : Decimal) (scale : ℕ) :
    d.signFactor * (unsigned d).unscaled scale = d.unscaled scale := by
  rw [← (unsigned d).digitsValue_padRight scale, ← d.digitsValue_padRight scale,
    (unsigned d).signFactor_of_unsigned rfl, one_mul]
  rfl

theorem unsigned_unscaled_nonneg (d : Decimal) (scale : ℕ) : 0 ≤ (unsigned d).unscaled scale := by
  rw [← (unsigned d).digitsValue_padRight scale, (unsigned d).signFactor_of_unsigned rfl, one_mul]
  omega

/-- A numeral behind the sign is a numeral with the sign. -/
theorem numeral_of_splitSign {l : List Char} {scale : ℕ} {m : ℤ}
    (h : IsNumeral scale (splitSign l).2 m) :
    ∃ d : Decimal, l = d.text ∧ d.places.length ≤ scale ∧
      (splitSign l).1 * m = d.unscaled scale := by
  obtain ⟨d, hsign, htext, hplaces, rfl⟩ := h
  rw [d.text_of_unsigned hsign] at htext
  have hd : unsigned d = d := by
    cases d
    simpa [unsigned] using hsign.symm
  have hunscaled : ∀ sign, ({ d with sign := sign } : Decimal).signFactor * d.unscaled scale =
      ({ d with sign := sign } : Decimal).unscaled scale := by
    intro sign
    have hsigned := unsigned_unscaled { d with sign := sign } scale
    rwa [show unsigned { d with sign := sign } = d from hd] at hsigned
  unfold splitSign at htext ⊢
  split at htext
  · rename_i rest
    obtain rfl : rest = d.unsignedText := htext
    exact ⟨{ d with sign := some false }, rfl, hplaces, hunscaled (some false)⟩
  · rename_i rest
    obtain rfl : rest = d.unsignedText := htext
    exact ⟨{ d with sign := some true }, rfl, hplaces, hunscaled (some true)⟩
  · exact ⟨{ d with sign := none }, htext, hplaces, hunscaled none⟩

/-- A numeral is no misformed text. -/
theorem not_misformed_numeral (d : Decimal) {scale : ℕ} {m : ℤ} :
    ¬ Misformed scale d.unsignedText m := by
  have hsign : ∀ positive, signChar positive ∉ d.unsignedText := by
    intro positive hmem
    rcases d.mem_unsignedText hmem with hdigit | hpoint
    · exact signChar_not_isDigit positive hdigit
    · exact point_ne_signChar positive hpoint.symm
  intro h
  generalize htext : d.unsignedText = text at h
  rw [htext] at hsign
  have hblank : text ≠ [] ∧ text ≠ ['.'] := by
    rw [← htext]
    have hsplit := d.splitOnce_unsignedText
    constructor
    · intro hnil
      rw [hnil] at hsplit
      obtain ⟨hwhole, hplaces⟩ := Prod.mk.inj hsplit
      exact d.nonempty (by rw [← hwhole]; exact hplaces.symm)
    · intro hpoint
      rw [hpoint] at hsplit
      obtain ⟨hwhole, hplaces⟩ := Prod.mk.inj hsplit
      exact d.nonempty (by rw [← hwhole]; exact hplaces.symm)
  cases h with
  | blank => exact hblank.1 rfl
  | point => exact hblank.2 rfl
  | sign positive => exact hsign positive List.mem_cons_self
  | signPoint positive => exact hsign positive List.mem_cons_self
  | pointSign positive => exact hsign positive (List.mem_cons_of_mem _ List.mem_cons_self)
  | secondSign d' hsign' =>
    obtain ⟨positive, hpositive⟩ := Option.ne_none_iff_exists'.mp hsign'
    rw [d'.text_eq_cons hpositive] at hsign
    exact hsign positive List.mem_cons_self
  | signAfterPoint d' hsign' =>
    obtain ⟨positive, hpositive⟩ := Option.ne_none_iff_exists'.mp hsign'
    rw [d'.text_eq_cons hpositive] at hsign
    exact hsign positive (List.mem_cons_of_mem _ List.mem_cons_self)

/-- Texts of one numeral give one number. -/
theorem parts_of_text {d d' : Decimal} (h : d.text = d'.text) (scale : ℕ) :
    d.places = d'.places ∧ d.unscaled scale = d'.unscaled scale := by
  have hsplit := (splitSign_text d).symm.trans (h ▸ splitSign_text d')
  obtain ⟨hsign, htext⟩ := Prod.mk.inj hsplit
  have hparts := d.splitOnce_unsignedText.symm.trans (htext ▸ d'.splitOnce_unsignedText)
  obtain ⟨hwhole, hplaces⟩ := Prod.mk.inj hparts
  refine ⟨hplaces, ?_⟩
  rw [← d.digitsValue_padRight, ← d'.digitsValue_padRight, hsign, hwhole, hplaces]

/-- The text of a numeral is taken for its number of units, and for nothing else. -/
theorem takes_text_iff {l : List Char} {d : Decimal} (h : trim l = d.text) (scale : ℕ) (v : ℤ) :
    Takes scale l v ↔ d.places.length ≤ scale ∧ (unsigned d).unscaled scale < 2 ^ 127 ∧
      v = d.unscaled scale := by
  unfold Takes
  rw [h, splitSign_text]
  dsimp only
  constructor
  · intro htakes
    obtain ⟨m, hreads, -, hm, rfl⟩ := htakes
    rcases hreads with ⟨d', -, htext, hplaces, rfl⟩ | hmisformed
    · obtain ⟨hparts, hvalue⟩ := parts_of_text (d := unsigned d) htext scale
      rw [← hvalue] at hm ⊢
      rw [← hparts] at hplaces
      exact ⟨hplaces, hm, unsigned_unscaled d scale⟩
    · exact absurd hmisformed (not_misformed_numeral d)
  · intro hvalue
    obtain ⟨hplaces, hm, rfl⟩ := hvalue
    have hnonneg := unsigned_unscaled_nonneg d scale
    refine ⟨(unsigned d).unscaled scale, Or.inl ⟨unsigned d, rfl, rfl, hplaces, rfl⟩, ?_, hm,
      (unsigned_unscaled d scale).symm⟩
    omega

/-- A numeral is taken for a number within the width, so that every build binds
the same one. -/
theorem binds_text_iff (overflowChecks : Bool) {l : List Char} {d : Decimal}
    (h : trim l = d.text) (scale : ℕ) (v : ℤ) :
    Binds overflowChecks scale l v ↔
      d.places.length ≤ scale ∧ (unsigned d).unscaled scale < 2 ^ 127 ∧
        v = d.unscaled scale := by
  have hlt : (unsigned d).unscaled scale < 2 ^ 127 → d.unscaled scale < 2 ^ 127 := by
    intro hwidth
    have hvalue := unsigned_unscaled d scale
    have hnonneg := unsigned_unscaled_nonneg d scale
    rcases d.signFactor_cases with hsign | hsign <;> rw [hsign] at hvalue <;> omega
  rw [Binds, takes_text_iff h, takes_text_iff h]
  constructor
  · intro hbinds
    rcases hbinds with ⟨htakes, -⟩ | ⟨-, ⟨-, hwidth, hvalue⟩, -⟩
    · exact htakes
    · exact absurd hvalue (hlt hwidth).ne'
  · intro htakes
    have hvalue := htakes.2.2
    exact Or.inl ⟨htakes, hvalue ▸ hlt htakes.2.1⟩

theorem unsigned_unscaled_lt (d : Decimal) (scale : ℕ) (h : -2 ^ 127 < d.unscaled scale)
    (h' : d.unscaled scale < 2 ^ 127) : (unsigned d).unscaled scale < 2 ^ 127 := by
  rw [← unsigned_unscaled] at h h'
  rcases d.signFactor_cases with hsign | hsign <;> rw [hsign] at h h' <;> omega

/-- A text is taken for the number of a numeral, or it is a misformed one. -/
theorem takes_cases {scale : ℕ} {l : List Char} {v : ℤ} (h : Takes scale l v) :
    (∃ d : Decimal, trim l = d.text ∧ d.places.length ≤ scale ∧ v = d.unscaled scale) ∨
      ∃ m, Misformed scale (splitSign (trim l)).2 m ∧ -2 ^ 127 ≤ m ∧ m < 2 ^ 127 := by
  obtain ⟨m, hreads, hm, hm', rfl⟩ := h
  rcases hreads with hnumeral | hmisformed
  · exact Or.inl (numeral_of_splitSign hnumeral)
  · exact Or.inr ⟨m, hmisformed, hm, hm'⟩

end Texts

section Reading

variable (overflowChecks : Bool)

/-- A text is bound exactly when it is a numeral of the scale whose number of
units has the width, and as that number; a text that is no numeral is an error. -/
structure ReadAsWritten (text : String) (scale : U8) : Prop where
  bound_iff : (∃ n, parseNumeric overflowChecks text scale = .ok n) ↔
    ∃ d : Decimal, trim text.toList = d.text ∧ d.places.length ≤ scale.val.toNat ∧
      -2 ^ 127 ≤ d.unscaled scale.val.toNat ∧ d.unscaled scale.val.toNat < 2 ^ 127
  exact : ∀ n, parseNumeric overflowChecks text scale = .ok n → n.scale = scale ∧
    ∃ d : Decimal, trim text.toList = d.text ∧
      (n.value.val : ℚ) / 10 ^ scale.val.toNat = d.value
  malformed : (∀ d : Decimal, trim text.toList ≠ d.text) →
    ∃ message, parseNumeric overflowChecks text scale = .error (.error message)

/-- The texts that are not read as they are written: those of the malformed
texts that are joined to an integer of the width, and the numerals of the
smallest number of the width, which the reader takes for positive at first. -/
def Misread (text : String) (scale : U8) : Prop :=
  (∃ m, Misformed scale.val.toNat (splitSign (trim text.toList)).2 m ∧
    -2 ^ 127 ≤ m ∧ m < 2 ^ 127) ∨
  ∃ d : Decimal, trim text.toList = d.text ∧ d.places.length ≤ scale.val.toNat ∧
    d.unscaled scale.val.toNat = -2 ^ 127

theorem readAsWritten_of_not_misread {text : String} {scale : U8} (hscale : scale.val ≤ 37)
    (h : ¬ Misread text scale) : ReadAsWritten overflowChecks text scale := by
  obtain ⟨hmisformed, hlowest⟩ := not_or.mp h
  have htakes : ∀ v, Takes scale.val.toNat text.toList v →
      ∃ d : Decimal, trim text.toList = d.text ∧ d.places.length ≤ scale.val.toNat ∧
        v = d.unscaled scale.val.toNat := fun v hv =>
    (takes_cases hv).resolve_right hmisformed
  have hbinds : ∀ n, parseNumeric overflowChecks text scale = .ok n → n.scale = scale ∧
      ∃ d : Decimal, trim text.toList = d.text ∧ d.places.length ≤ scale.val.toNat ∧
        n.value.val = d.unscaled scale.val.toNat := by
    intro n hn
    obtain ⟨hbinds, hsame⟩ := (parseNumeric_eq_ok_iff overflowChecks text scale n).mp hn
    refine ⟨hsame, ?_⟩
    rcases hbinds with ⟨hvalue, -⟩ | ⟨hbuild, hvalue, hval⟩
    · exact htakes _ hvalue
    · obtain ⟨d, htext, -⟩ := htakes _ hvalue
      obtain ⟨hplaces, -, heq⟩ :=
        (binds_text_iff overflowChecks htext _ _).mp (Or.inr ⟨hbuild, hvalue, hval⟩)
      exact ⟨d, htext, hplaces, heq⟩
  refine ⟨⟨?_, ?_⟩, ?_, ?_⟩
  · intro hbound
    obtain ⟨n, hn⟩ := hbound
    obtain ⟨-, d, htext, hplaces, hval⟩ := hbinds n hn
    exact ⟨d, htext, hplaces, hval ▸ n.value.lower, hval ▸ n.value.upper⟩
  · intro hnumeral
    obtain ⟨d, htext, hplaces, hlower, hupper⟩ := hnumeral
    have hne : d.unscaled scale.val.toNat ≠ -2 ^ 127 := fun heq => hlowest ⟨d, htext, hplaces, heq⟩
    have hwidth := unsigned_unscaled_lt d scale.val.toNat (by omega) hupper
    obtain ⟨value, -, hval⟩ := RangedInt.exists_tryFrom (-2 ^ 127) (2 ^ 127) hlower hupper
    refine ⟨⟨value, scale, by omega⟩,
      (parseNumeric_eq_ok_iff overflowChecks text scale _).mpr ⟨?_, rfl⟩⟩
    exact (binds_text_iff overflowChecks htext _ _).mpr ⟨hplaces, hwidth, hval⟩
  · intro n hn
    obtain ⟨hsame, d, htext, hplaces, hval⟩ := hbinds n hn
    refine ⟨hsame, d, htext, ?_⟩
    rw [hval]
    exact d.unscaled_div hplaces
  · intro hnone
    apply parseNumeric_of_not_takes
    intro v hv
    obtain ⟨d, htext, -⟩ := htakes v hv
    exact hnone d htext

theorem not_misread_of_readAsWritten {text : String} {scale : U8}
    (h : ReadAsWritten overflowChecks text scale) : ¬ Misread text scale := by
  intro hmisread
  rcases hmisread with ⟨m, hmisformed, hm, hm'⟩ | ⟨d, htext, hplaces, hlowest⟩
  · have hnone : ∀ d : Decimal, trim text.toList ≠ d.text := by
      intro d htext
      rw [htext, splitSign_text] at hmisformed
      exact not_misformed_numeral d hmisformed
    obtain ⟨message, herror⟩ := h.malformed hnone
    exact parseNumeric_ne_error overflowChecks ⟨m, Or.inr hmisformed, hm, hm', rfl⟩ message herror
  · obtain ⟨n, hn⟩ := h.bound_iff.mpr
      ⟨d, htext, hplaces, by rw [hlowest], by rw [hlowest]; norm_num⟩
    have hbinds := ((parseNumeric_eq_ok_iff overflowChecks text scale n).mp hn).1
    obtain ⟨-, hwidth, -⟩ := (binds_text_iff overflowChecks htext _ _).mp hbinds
    have hvalue := unsigned_unscaled d scale.val.toNat
    have hnonneg := unsigned_unscaled_nonneg d scale.val.toNat
    rcases d.signFactor_cases with hsign | hsign <;> rw [hsign, hlowest] at hvalue <;> omega

/-- A text is read as it is written exactly when it is not one of the misread
ones. -/
theorem readAsWritten_iff (text : String) (scale : U8) (hscale : scale.val ≤ 37) :
    ReadAsWritten overflowChecks text scale ↔ ¬ Misread text scale :=
  ⟨not_misread_of_readAsWritten overflowChecks,
    readAsWritten_of_not_misread overflowChecks hscale⟩

def scaleOf (scale : ℕ) (h : scale < 256) : U8 := ⟨scale, by omega, by omega⟩

theorem readAsWritten_iff_two :
    ReadAsWritten false "-123.45" (scaleOf 2 (by omega)) ↔
      ¬ Misread "-123.45" (scaleOf 2 (by omega)) :=
  readAsWritten_iff false "-123.45" (scaleOf 2 (by omega)) (by unfold scaleOf; norm_num)

/-- A second minus sign is read as one of the integer, and the number is bound
as positive. -/
theorem not_readAsWritten_doubleMinus :
    ¬ ∀ (overflowChecks : Bool) (text : String) (scale : U8), scale.val ≤ 37 →
      ReadAsWritten overflowChecks text scale := by
  intro h
  have hread := h false "--5" (scaleOf 0 (by omega)) (by unfold scaleOf; norm_num)
  have hnone : ∀ d : Decimal, trim "--5".toList ≠ d.text := by
    intro d htext
    have hsplit := splitSign_text d
    rw [← htext] at hsplit
    obtain ⟨-, hunsigned⟩ := Prod.mk.inj hsplit
    exact (d.head_unsignedText hunsigned.symm).2 rfl
  obtain ⟨message, herror⟩ := hread.malformed hnone
  have hbound : parseNumeric false "--5" (scaleOf 0 (by omega)) =
      .ok ⟨⟨5, by norm_num, by norm_num⟩, scaleOf 0 (by omega), by unfold scaleOf; norm_num⟩ := by
    rfl
  rw [hbound] at herror
  contradiction

end Reading

section RoundTrip

/-- The numeral that a decimal is rendered as: exactly as many places as the
scale, no point without places, and a sign only below zero. -/
structure RenderedAs (n : Numeric) (d : Decimal) : Prop where
  text : (formatNumeric n).toList = d.text
  places : d.places.length = n.scale.val.toNat
  point : d.fraction = none ↔ n.scale.val = 0
  whole : d.whole ≠ []
  sign : d.sign = if n.value.val < 0 then some false else none
  value : d.value = n.value.val / 10 ^ n.scale.val.toNat

/-- The digits of a number with the point that the scale puts among them. -/
theorem decimalBody_parts (scale n : ℕ) :
    ∃ (whole : List Char) (fraction : Option (List Char)),
      decimalBody scale (toString n).toList = pointed whole fraction ∧
      (∀ c ∈ whole, c.isDigit) ∧ (∀ c ∈ fraction.getD [], c.isDigit) ∧ whole ≠ [] ∧
      (fraction.getD []).length = scale ∧ (fraction = none ↔ scale = 0) ∧
      digitsValue (whole ++ fraction.getD []) = n := by
  unfold decimalBody
  by_cases hscale : scale = 0
  · rw [if_pos hscale]
    refine ⟨(toString n).toList, none, rfl, fun c hc => isDigit_of_mem_toString hc, nofun, ?_,
      hscale.symm, by simp [hscale], ?_⟩
    · rw [toString_nat_toList]
      exact Nat.toDigits_ne_nil
    · rw [Option.getD_none, List.append_nil, digitsValue_toString]
  · rw [if_neg hscale]
    have hlength := length_padLeft '0' (scale + 1) (toString n).toList
    have hdigits : ∀ c ∈ padLeft '0' (scale + 1) (toString n).toList, c.isDigit :=
      fun c hc => isDigit_of_mem_padLeft hc
    have hvalue := digitsValue_padLeft (scale + 1) n
    generalize padLeft '0' (scale + 1) (toString n).toList = padded at hlength hdigits hvalue ⊢
    refine ⟨padded.take (padded.length - scale), some (padded.drop (padded.length - scale)), rfl,
      fun c hc => hdigits c (List.mem_of_mem_take hc),
      fun c hc => hdigits c (List.mem_of_mem_drop hc), ?_, ?_, ?_, ?_⟩
    · rw [← List.length_pos_iff, List.length_take]
      omega
    · rw [Option.getD_some, List.length_drop]
      omega
    · exact iff_of_false (Option.some_ne_none _) hscale
    · rw [Option.getD_some, List.take_append_drop, hvalue]

theorem exists_renderedAs (n : Numeric) : ∃ d : Decimal, RenderedAs n d := by
  obtain ⟨whole, fraction, hbody, hwhole, hfraction, hne, hplaces, hpoint, hvalue⟩ :=
    decimalBody_parts n.scale.val.toNat n.value.val.natAbs
  have hlower := n.scale.lower
  let d : Decimal :=
    { sign := if n.value.val < 0 then some false else none
      whole := whole
      fraction := fraction
      whole_digits := hwhole
      fraction_digits := hfraction
      nonempty := List.append_ne_nil_of_left_ne_nil hne _ }
  refine ⟨d, ?_, hplaces, ?_, hne, rfl, ?_⟩
  · rw [formatNumeric, String.toList_ofList, hbody]
    by_cases hneg : n.value.val < 0
    · have hsign : d.sign = some false := if_pos hneg
      rw [if_pos hneg, d.text_eq_cons hsign]
      cases fraction <;> rfl
    · have hsign : d.sign = none := if_neg hneg
      rw [if_neg hneg, d.text_of_unsigned hsign]
      cases fraction <;> rfl
  · rw [show d.fraction = fraction from rfl, hpoint]
    omega
  · have hmantissa : d.mantissa = n.value.val := by
      have hmagnitude : (digitsValue (d.whole ++ d.places) : ℤ) = n.value.val.natAbs := by
        exact_mod_cast hvalue
      rw [Decimal.mantissa, hmagnitude]
      by_cases hneg : n.value.val < 0
      · have hsign : d.sign = some false := if_pos hneg
        rw [d.signFactor_eq hsign]
        show -1 * (n.value.val.natAbs : ℤ) = n.value.val
        omega
      · have hsign : d.sign = none := if_neg hneg
        rw [d.signFactor_of_unsigned hsign]
        omega
    rw [Decimal.value, hmantissa, show d.places.length = n.scale.val.toNat from hplaces]

theorem RenderedAs.unscaled_eq {n : Numeric} {d : Decimal} (h : RenderedAs n d) :
    d.unscaled n.scale.val.toNat = n.value.val := by
  have hmantissa : d.mantissa = n.value.val := by
    have hvalue := h.value
    rw [Decimal.value, h.places, div_left_inj' (by positivity)] at hvalue
    exact_mod_cast hvalue
  rw [Decimal.unscaled, h.places, Nat.sub_self, pow_zero, mul_one, hmantissa]

/-- A decimal is read back from its text, which is the numeral of its value. The
smallest number of the width is left out: its digits do not fit without the
sign. -/
theorem formatNumeric_round_trip (overflowChecks : Bool) (n : Numeric)
    (h : n.value.val.natAbs < 2 ^ 127) :
    parseNumeric overflowChecks (formatNumeric n) n.scale = .ok n ∧
      ∃ d : Decimal, RenderedAs n d := by
  obtain ⟨d, hd⟩ := exists_renderedAs n
  refine ⟨?_, d, hd⟩
  have htext : trim (formatNumeric n).toList = d.text := by
    rw [hd.text]
    exact trim_eq_self fun c hc => d.not_isWhitespace_of_mem_text hc
  have hunscaled := hd.unscaled_eq
  have hwidth := unsigned_unscaled_lt d n.scale.val.toNat (by omega) (by omega)
  rw [parseNumeric_eq_ok_iff]
  exact ⟨(binds_text_iff overflowChecks htext _ _).mpr ⟨hd.places.le, hwidth, hunscaled.symm⟩,
    rfl⟩

/-- The number -123.45. -/
def sampleNumeric : Numeric :=
  ⟨⟨-12345, by norm_num, by norm_num⟩, scaleOf 2 (by omega), by unfold scaleOf; norm_num⟩

theorem formatNumeric_round_trip_sample :
    parseNumeric false (formatNumeric sampleNumeric) sampleNumeric.scale = .ok sampleNumeric ∧
      ∃ d : Decimal, RenderedAs sampleNumeric d :=
  formatNumeric_round_trip false sampleNumeric (by unfold sampleNumeric; norm_num)

end RoundTrip

section Precision

variable (lib : Libraries)

/-- A declared type `decimal(p,s)` or `numeric(p,s)`, in any spelling. -/
structure DeclaredDecimal (xSqlType : String) (precision scale : ℕ) : Prop where
  base : baseType xSqlType = "decimal" ∨ baseType xSqlType = "numeric"
  precision_eq : (precisionScale xSqlType).1.val = precision
  scale_eq : (precisionScale xSqlType).2.val = scale
  precision_pos : 1 ≤ precision
  precision_le : precision ≤ 38
  scale_le : scale ≤ precision
  scale_lt : scale ≤ 37

theorem declaredDecimal_sizedType {name : String} (hname : name = "decimal" ∨ name = "numeric")
    {precision scale : ℕ} (hpos : 1 ≤ precision) (hle : precision ≤ 38) (hscale : scale ≤ precision)
    (hscale' : scale ≤ 37) : DeclaredDecimal (sizedType name precision scale) precision scale := by
  have hopen : '(' ∉ name.toList := by
    rcases hname with rfl | rfl <;> decide
  obtain ⟨hp, hs⟩ := @precisionScale_sizedType name hopen precision scale
    (by omega) (by omega)
  refine ⟨?_, hp, hs, hpos, hle, hscale, hscale'⟩
  rw [baseType_sizedType hopen]
  rcases hname with rfl | rfl
  · exact Or.inl rfl
  · exact Or.inr rfl

/-- Any other argument is bound as NULL, or it is an error. -/
theorem decimalParam_of_no_text {value : Json} {xSqlType : String}
    (h : argumentText lib value = none) :
    decimalParam lib value xSqlType = .ok none ∨
      ∃ message, decimalParam lib value xSqlType = .error (.error message) := by
  cases value with
  | null => exact Or.inl rfl
  | str s => contradiction
  | num n => contradiction
  | bool b => exact Or.inr ⟨_, rfl⟩
  | arr items => exact Or.inr ⟨_, rfl⟩
  | obj fields => exact Or.inr ⟨_, rfl⟩

theorem jsonToParam_decimal {xSqlType : String} (value : Json)
    (h : baseType xSqlType = "decimal" ∨ baseType xSqlType = "numeric" ∨
      baseType xSqlType = "money" ∨ baseType xSqlType = "smallmoney") :
    jsonToParam lib value xSqlType = (decimalParam lib value xSqlType).map .numeric := by
  unfold jsonToParam
  rcases h with hbase | hbase | hbase | hbase <;> rw [hbase] <;> rfl

/-- A number is bound exactly when the text of the argument is read as it. -/
theorem jsonToParam_numeric_iff {xSqlType : String} (value : Json) (n : Numeric)
    (h : baseType xSqlType = "decimal" ∨ baseType xSqlType = "numeric" ∨
      baseType xSqlType = "money" ∨ baseType xSqlType = "smallmoney") :
    jsonToParam lib value xSqlType = .ok (.numeric (some n)) ↔
      ∃ text, argumentText lib value = some text ∧
        Binds lib.overflowChecks (precisionScale xSqlType).2.val.toNat text n.value.val ∧
          n.scale = (precisionScale xSqlType).2 := by
  rw [jsonToParam_decimal lib value h]
  cases htext : argumentText lib value with
  | none =>
    refine iff_of_false ?_ (by simp)
    rcases decimalParam_of_no_text lib htext with hnull | ⟨message, herror⟩
    · rw [hnull]
      simp [Except.map]
    · rw [herror]
      simp [Except.map]
  | some text =>
    have hread := parseNumeric_eq_ok_iff lib.overflowChecks (String.ofList text)
      (precisionScale xSqlType).2 n
    rw [String.toList_ofList] at hread
    simp only [Option.some.injEq, exists_eq_left', ← hread, decimalParam_of_text lib htext]
    cases parseNumeric lib.overflowChecks (String.ofList text) (precisionScale xSqlType).2 <;>
      simp [Except.map]

theorem DeclaredDecimal.isDecimal {xSqlType : String} {precision scale : ℕ}
    (h : DeclaredDecimal xSqlType precision scale) :
    baseType xSqlType = "decimal" ∨ baseType xSqlType = "numeric" ∨
      baseType xSqlType = "money" ∨ baseType xSqlType = "smallmoney" := by
  rcases h.base with hbase | hbase
  · exact Or.inl hbase
  · exact Or.inr (Or.inl hbase)

/-- Every number that is bound has the declared precision, and every numeral
outside it is an error. -/
structure WithinPrecision (value : Json) (xSqlType : String) (precision scale : ℕ) : Prop where
  bound : ∀ n, jsonToParam lib value xSqlType = .ok (.numeric (some n)) →
    n.value.val.natAbs < 10 ^ precision
  rejected : ∀ (text : List Char) (d : Decimal), argumentText lib value = some text →
    trim text = d.text → 10 ^ precision ≤ (d.unscaled scale).natAbs →
      ∃ message, jsonToParam lib value xSqlType = .error (.error message)

/-- Behind a sign that it may have, the text is a numeral of the scale with more
digits than the precision. Its number is below the width, or it is the smallest
one of the width, which a build that checks does not take behind a minus. -/
structure Oversized (overflowChecks : Bool) (precision scale : ℕ) (text : List Char)
    (d : Decimal) : Prop where
  text_eq : (splitSign (trim text)).2 = d.text
  places_le : d.places.length ≤ scale
  long : precision < (significant (d.whole ++ padRight '0' scale d.places)).length
  width : digitsValue (d.whole ++ padRight '0' scale d.places) < 2 ^ 127 ∨
    digitsValue (d.whole ++ padRight '0' scale d.places) = 2 ^ 127 ∧ d.sign = some false ∧
      ((splitSign (trim text)).1 = 1 ∨ overflowChecks = false)

theorem Oversized.bounds {overflowChecks : Bool} {precision scale : ℕ} {text : List Char}
    {d : Decimal} (h : Oversized overflowChecks precision scale text d) :
    -2 ^ 127 ≤ d.unscaled scale ∧ d.unscaled scale < 2 ^ 127 ∧
      ((splitSign (trim text)).1 * d.unscaled scale < 2 ^ 127 ∨ overflowChecks = false) := by
  have hvalue := d.natAbs_unscaled scale
  have hsigns := splitSign_fst (trim text)
  rcases h.width with hlt | ⟨heq, hsign, hkept⟩
  · refine ⟨by omega, by omega, Or.inl ?_⟩
    rcases hsigns with hs | hs <;> rw [hs] <;> omega
  · have hlowest : d.unscaled scale = -2 ^ 127 := by
      rw [← d.digitsValue_padRight, heq, Decimal.signFactor, if_pos hsign]
      norm_num
    refine ⟨by omega, by omega, hkept.imp_left fun hs => ?_⟩
    rw [hs]
    omega

theorem long_iff (d : Decimal) (precision scale : ℕ) :
    precision < (significant (d.whole ++ padRight '0' scale d.places)).length ↔
      10 ^ precision ≤ (d.unscaled scale).natAbs := by
  have hlt := digitsValue_lt_pow_iff (joined_digits d scale).2 precision
  rw [d.natAbs_unscaled]
  omega

/-- Digits right after a point and a sign stay below the scale. -/
theorem signAfterPoint_lt {d : Decimal} {scale : ℕ} (hfraction : d.fraction = none)
    (hplaces : d.whole.length + 1 ≤ scale) :
    (d.unscaled (scale - (d.whole.length + 1))).natAbs < 10 ^ scale := by
  have hnone : d.places = [] := by rw [Decimal.places, hfraction, Option.getD_none]
  rw [d.natAbs_unscaled, hnone]
  have hlt := digitsValue_lt (joined_digits d (scale - (d.whole.length + 1))).2
  rw [hnone] at hlt
  refine hlt.trans_le (Nat.pow_le_pow_right (by omega) ?_)
  rw [padRight, List.nil_append, List.length_append, List.length_replicate, List.length_nil]
  omega

/-- Whatever is read as a number beyond the scale is a numeral, which may have a
second sign. -/
theorem numeral_of_reads {scale : ℕ} {unsigned : List Char} {m : ℤ}
    (h : Reads scale unsigned m) (hlarge : 10 ^ scale ≤ m.natAbs) :
    ∃ d : Decimal, unsigned = d.text ∧ d.places.length ≤ scale ∧ m = d.unscaled scale := by
  have hpos : 0 < 10 ^ scale := Nat.pow_pos (by omega)
  rcases h with ⟨d, hsign, htext, hplaces, rfl⟩ | hmisformed
  · exact ⟨d, htext, hplaces, rfl⟩
  · cases hmisformed with
    | blank | point => exact absurd hlarge (by rw [Int.natAbs_zero]; omega)
    | sign | signPoint | pointSign => exact absurd hlarge (by rw [Int.natAbs_zero]; omega)
    | secondSign d hsign hplaces =>
      exact ⟨d, rfl, hplaces, rfl⟩
    | signAfterPoint d hsign hfraction hplaces =>
      exact absurd (signAfterPoint_lt hfraction hplaces) (not_lt.mpr hlarge)

theorem reads_text {d : Decimal} {scale : ℕ} (hplaces : d.places.length ≤ scale) :
    Reads scale d.text (d.unscaled scale) := by
  by_cases hsign : d.sign = none
  · exact Or.inl ⟨d, hsign, rfl, hplaces, rfl⟩
  · exact Or.inr (.secondSign d hsign hplaces)

/-- A text is bound as the number that is read behind its sign, with the sign;
its size is the same. -/
theorem binds_natAbs_iff (overflowChecks : Bool) (scale : ℕ) (text : List Char) (n : ℕ) :
    (∃ v, Binds overflowChecks scale text v ∧ v.natAbs = n) ↔
      ∃ m, Reads scale (splitSign (trim text)).2 m ∧ -2 ^ 127 ≤ m ∧ m < 2 ^ 127 ∧
        ((splitSign (trim text)).1 * m < 2 ^ 127 ∨ overflowChecks = false) ∧ m.natAbs = n := by
  have hsign := splitSign_fst (trim text)
  constructor
  · rintro ⟨v, ⟨⟨m, hreads, hm, hm', rfl⟩, hlt⟩ | ⟨hbuild, ⟨m, hreads, hm, hm', hval⟩, rfl⟩, hn⟩
    · refine ⟨m, hreads, hm, hm', Or.inl hlt, ?_⟩
      rcases hsign with hs | hs <;> rw [hs] at hn <;> omega
    · refine ⟨m, hreads, hm, hm', Or.inr hbuild, ?_⟩
      rcases hsign with hs | hs <;> rw [hs] at hval <;> omega
  · rintro ⟨m, hreads, hm, hm', hkept, hn⟩
    by_cases hlt : (splitSign (trim text)).1 * m < 2 ^ 127
    · refine ⟨_, Or.inl ⟨⟨m, hreads, hm, hm', rfl⟩, hlt⟩, ?_⟩
      rcases hsign with hs | hs <;> rw [hs] <;> omega
    · have hval : 2 ^ 127 = (splitSign (trim text)).1 * m := by
        rcases hsign with hs | hs <;> rw [hs] at hlt ⊢ <;> omega
      refine ⟨-2 ^ 127, Or.inr ⟨hkept.resolve_left hlt, ⟨m, hreads, hm, hm', hval⟩, rfl⟩, ?_⟩
      rcases hsign with hs | hs <;> rw [hs] at hval <;> omega

theorem sign_of_unscaled_neg {d : Decimal} {scale : ℕ} (h : d.unscaled scale < 0) :
    d.sign = some false := by
  by_contra hsign
  rw [← d.digitsValue_padRight, Decimal.signFactor, if_neg hsign, one_mul] at h
  omega

/-- The text of an oversized number is bound as one with more digits than the
precision, and no other text is. -/
theorem binds_oversized_iff (overflowChecks : Bool) {precision scale : ℕ}
    (hscale : scale ≤ precision) (text : List Char) :
    (∃ v, Binds overflowChecks scale text v ∧ 10 ^ precision ≤ v.natAbs) ↔
      ∃ d, Oversized overflowChecks precision scale text d := by
  have hpow : 10 ^ scale ≤ 10 ^ precision := Nat.pow_le_pow_right (by omega) hscale
  have hsigns := splitSign_fst (trim text)
  constructor
  · rintro ⟨v, hbinds, hlarge⟩
    obtain ⟨m, hreads, hm, hm', hkept, hn⟩ :=
      (binds_natAbs_iff overflowChecks scale text _).mp ⟨v, hbinds, rfl⟩
    obtain ⟨d, htext, hplaces, rfl⟩ := numeral_of_reads hreads (by omega)
    have hvalue := d.natAbs_unscaled scale
    refine ⟨d, htext, hplaces, (long_iff d precision scale).mpr (by omega), ?_⟩
    by_cases hlt : digitsValue (d.whole ++ padRight '0' scale d.places) < 2 ^ 127
    · exact Or.inl hlt
    · refine Or.inr ⟨by omega, @sign_of_unscaled_neg d scale (by omega), ?_⟩
      refine hsigns.imp_right fun hs => hkept.resolve_left ?_
      rw [hs]
      omega
  · rintro ⟨d, hd⟩
    have hvalue := d.natAbs_unscaled scale
    have hlarge := (long_iff d precision scale).mp hd.long
    obtain ⟨v, hbinds, hn⟩ := (binds_natAbs_iff overflowChecks scale text _).mpr
      ⟨d.unscaled scale, hd.text_eq ▸ reads_text hd.places_le, hd.bounds.1, hd.bounds.2.1,
        hd.bounds.2.2, rfl⟩
    exact ⟨v, hbinds, by omega⟩

/-- The precision of a decimal is kept exactly when the argument has no text of
an oversized number. -/
theorem withinPrecision_iff (value : Json) (xSqlType : String) (precision scale : ℕ)
    (h : DeclaredDecimal xSqlType precision scale) :
    WithinPrecision lib value xSqlType precision scale ↔
      ∀ text d, argumentText lib value = some text →
        ¬ Oversized lib.overflowChecks precision scale text d := by
  have hscale : (precisionScale xSqlType).2.val.toNat = scale := by
    rw [h.scale_eq]
    rfl
  have hbound := fun n => jsonToParam_numeric_iff lib value n h.isDecimal
  simp only [hscale] at hbound
  have hoversized := fun text =>
    @binds_oversized_iff lib.overflowChecks precision scale h.scale_le text
  constructor
  · intro hwithin text d htext hd
    obtain ⟨v, hbinds, hlarge⟩ := (hoversized text).mpr ⟨d, hd⟩
    obtain ⟨hlower, hupper⟩ := hbinds.bounds
    obtain ⟨number, -, hval⟩ := RangedInt.exists_tryFrom (-2 ^ 127) (2 ^ 127) hlower hupper
    have hsmall := h.scale_lt
    have hread := h.scale_eq
    have hparam := (hbound ⟨number, (precisionScale xSqlType).2, by omega⟩).mpr
      ⟨text, htext, by rw [hval]; exact hbinds, rfl⟩
    have hwithin' := hwithin.bound _ hparam
    rw [hval] at hwithin'
    omega
  · intro hnone
    have hsmall : ∀ text v, argumentText lib value = some text →
        Binds lib.overflowChecks scale text v → v.natAbs < 10 ^ precision := by
      intro text v htext hbinds
      by_contra hlarge
      obtain ⟨d, hd⟩ := (hoversized text).mp ⟨v, hbinds, not_lt.mp hlarge⟩
      exact hnone text d htext hd
    constructor
    · intro n hn
      obtain ⟨text, htext, hbinds, -⟩ := (hbound n).mp hn
      exact hsmall text _ htext hbinds
    · intro text d htext hnumeral hlarge
      have hnot : ∀ v, ¬ Takes scale text v := by
        intro v htakes
        have hvalue := (takes_text_iff hnumeral scale v).mp htakes
        have hbinds := (binds_text_iff lib.overflowChecks hnumeral scale v).mpr hvalue
        have hlt := hsmall text v htext hbinds
        rw [hvalue.2.2] at hlt
        omega
      obtain ⟨message, herror⟩ := @parseNumeric_of_not_takes lib.overflowChecks
        (precisionScale xSqlType).2 (String.ofList text)
        (by rw [hscale, String.toList_ofList]; exact hnot)
      refine ⟨message, ?_⟩
      rw [jsonToParam_decimal lib value h.isDecimal, decimalParam_of_text lib htext, herror]
      rfl

theorem declaredDecimal_sample : DeclaredDecimal (sizedType "decimal" 4 2) 4 2 :=
  declaredDecimal_sizedType (Or.inl rfl) (by omega) (by omega) (by omega) (by omega)

theorem withinPrecision_iff_sample :
    WithinPrecision numericLibraries (.str "12.34") (sizedType "decimal" 4 2) 4 2 ↔
      ∀ text d, argumentText numericLibraries (.str "12.34") = some text →
        ¬ Oversized true 4 2 text d :=
  withinPrecision_iff numericLibraries (.str "12.34") (sizedType "decimal" 4 2) 4 2
    declaredDecimal_sample

/-- Five digits are bound under a precision of four. -/
theorem not_withinPrecision_five_digits :
    ¬ ∀ (lib : Libraries) (value : Json) (xSqlType : String) (precision scale : ℕ),
      DeclaredDecimal xSqlType precision scale →
        WithinPrecision lib value xSqlType precision scale := by
  intro h
  have hwithin := h numericLibraries (.str "123.45") (sizedType "decimal" 4 2) 4 2
    declaredDecimal_sample
  have hbound : jsonToParam numericLibraries (.str "123.45") (sizedType "decimal" 4 2) =
      .ok (.numeric (some ⟨⟨12345, by norm_num, by norm_num⟩, scaleOf 2 (by omega),
        by unfold scaleOf; norm_num⟩)) := by
    rfl
  have hsmall : (12345 : ℤ).natAbs < 10 ^ 4 := hwithin.bound _ hbound
  omega

end Precision

section Panics

variable (lib : Libraries)

/-- The computation ends with a value or an error, not with a panic. -/
def Returns {A : Type} (r : Except Fault A) : Prop := ∀ message, r ≠ .error (.panic message)

theorem returns_ok {A : Type} (a : A) : Returns (.ok a) := nofun

theorem returns_error {A : Type} (message : String) :
    Returns (.error (.error message) : Except Fault A) := nofun

theorem returns_map_iff {A B : Type} (f : A → B) (r : Except Fault A) :
    Returns (r.map f) ↔ Returns r := by
  cases r with
  | ok a => exact iff_of_true (returns_ok (f a)) (returns_ok a)
  | error fault =>
    refine forall_congr' fun message => not_congr ?_
    simp only [Except.map, Except.error.injEq]

theorem Returns.bind {A B : Type} {r : Except Fault A} {f : A → Except Fault B} (h : Returns r)
    (hf : ∀ a, Returns (f a)) : Returns (r >>= f) := by
  cases r with
  | ok a => exact hf a
  | error fault =>
    intro message heq
    exact h message (congrArg Except.error (Except.error.inj heq))

theorem integerValue_returns (value : Json) (xSqlType : String) :
    Returns (integerValue lib value xSqlType) := by
  unfold integerValue
  split
  · exact returns_ok none
  · split
    · exact returns_ok _
    · exact returns_error _

theorem narrowedInteger_returns (lo hi : ℤ) (typeName : String) (value : Json)
    (xSqlType : String) : Returns (narrowedInteger lib lo hi typeName value xSqlType) := by
  refine (integerValue_returns lib value xSqlType).bind ?_
  intro i
  split
  · exact returns_ok none
  · split
    · exact returns_ok _
    · exact returns_error _

theorem floatingValue_returns (value : Json) (xSqlType : String) :
    Returns (floatingValue lib value xSqlType) := by
  unfold floatingValue
  split
  · exact returns_ok none
  · split
    · exact returns_ok _
    · exact returns_error _

theorem realValue_returns (value : Json) (xSqlType : String) :
    Returns (realValue lib value xSqlType) := by
  refine (floatingValue_returns lib value xSqlType).bind ?_
  intro bits
  split
  · exact returns_ok none
  · dsimp only
    split
    · exact returns_error _
    · exact returns_ok _

theorem parsedValue_returns {A : Type} (parse : String → Except String A) (value : Json)
    (xSqlType : String) : Returns (parsedValue lib parse value xSqlType) := by
  have hstring : Returns (stringValue lib value xSqlType) := by
    unfold stringValue
    split
    · exact returns_ok none
    · exact returns_ok _
    · exact returns_error _
  refine hstring.bind ?_
  intro s
  split
  · exact returns_ok none
  · split
    · exact returns_ok _
    · exact returns_error _

/-- Only the exact numerics can end in a panic. -/
theorem jsonToParam_returns {xSqlType : String} (value : Json)
    (h : ¬ (baseType xSqlType = "decimal" ∨ baseType xSqlType = "numeric" ∨
      baseType xSqlType = "money" ∨ baseType xSqlType = "smallmoney")) :
    Returns (jsonToParam lib value xSqlType) := by
  simp only [not_or] at h
  unfold jsonToParam
  split
  · split
    · exact returns_ok _
    · exact returns_ok _
    · exact returns_error _
  · exact (returns_map_iff _ _).mpr (narrowedInteger_returns lib _ _ _ value xSqlType)
  · exact (returns_map_iff _ _).mpr (narrowedInteger_returns lib _ _ _ value xSqlType)
  · exact (returns_map_iff _ _).mpr (narrowedInteger_returns lib _ _ _ value xSqlType)
  · exact (returns_map_iff _ _).mpr (integerValue_returns lib value xSqlType)
  · exact (returns_map_iff _ _).mpr (realValue_returns lib value xSqlType)
  · exact (returns_map_iff _ _).mpr (floatingValue_returns lib value xSqlType)
  · rename_i hbase
    exact absurd hbase h.1
  · rename_i hbase
    exact absurd hbase h.2.1
  · rename_i hbase
    exact absurd hbase h.2.2.1
  · rename_i hbase
    exact absurd hbase h.2.2.2
  all_goals first
    | exact (returns_map_iff _ _).mpr (parsedValue_returns lib _ value xSqlType)
    | split <;> exact returns_ok _

/-- An exact numeric whose text is taken for a number, where the number leaves
the width with its sign or the driver does not take the scale. -/
def PanickingDecimal (value : Json) (xSqlType : String) : Prop :=
  (baseType xSqlType = "decimal" ∨ baseType xSqlType = "numeric" ∨
    baseType xSqlType = "money" ∨ baseType xSqlType = "smallmoney") ∧
  ∃ text v, argumentText lib value = some text ∧
    Takes (precisionScale xSqlType).2.val.toNat text v ∧
      (v = 2 ^ 127 ∨ 38 ≤ (precisionScale xSqlType).2.val)

/-- A text is bound or turned down without a panic exactly when neither the
width, in a build that checks it, nor the driver stops it. -/
theorem decimalParam_returns_iff {value : Json} {xSqlType : String} {text : List Char}
    (h : argumentText lib value = some text) :
    Returns (decimalParam lib value xSqlType) ↔
      ¬ ∃ v, Takes (precisionScale xSqlType).2.val.toNat text v ∧
        (lib.overflowChecks = true ∧ v = 2 ^ 127 ∨ 38 ≤ (precisionScale xSqlType).2.val) := by
  have hpanics := parseNumeric_panics_iff lib.overflowChecks (String.ofList text)
    (precisionScale xSqlType).2
  rw [String.toList_ofList] at hpanics
  rw [decimalParam_of_text lib h, returns_map_iff, ← hpanics, Returns, not_exists]

/-- A parameter is bound or turned down without a panic, in the builds that check
their arithmetic and in the others, exactly when it is not such a decimal. -/
theorem jsonToParam_returns_iff (value : Json) (xSqlType : String) :
    (∀ overflowChecks,
      Returns (jsonToParam { lib with overflowChecks := overflowChecks } value xSqlType)) ↔
      ¬ PanickingDecimal lib value xSqlType := by
  by_cases hbase : baseType xSqlType = "decimal" ∨ baseType xSqlType = "numeric" ∨
    baseType xSqlType = "money" ∨ baseType xSqlType = "smallmoney"
  · simp only [jsonToParam_decimal _ value hbase, returns_map_iff]
    cases htext : argumentText lib value with
    | none =>
      refine iff_of_true ?_ ?_
      · intro overflowChecks
        have hnone : argumentText { lib with overflowChecks := overflowChecks } value = none :=
          htext
        rcases @decimalParam_of_no_text _ _ xSqlType hnone with hnull | ⟨message, herror⟩
        · rw [hnull]
          exact returns_ok none
        · rw [herror]
          exact returns_error message
      · intro h
        obtain ⟨-, text, v, htext', -⟩ := h
        rw [htext] at htext'
        contradiction
    | some text =>
      have hreturns := fun overflowChecks => @decimalParam_returns_iff
        { lib with overflowChecks := overflowChecks } value xSqlType text htext
      simp only [hreturns]
      constructor
      · rintro h ⟨-, text', v, htext', htakes, hcause⟩
        obtain rfl := Option.some.inj (htext.symm.trans htext')
        exact h true ⟨v, htakes, hcause.imp_left fun hv => ⟨rfl, hv⟩⟩
      · rintro h overflowChecks ⟨v, htakes, hcause⟩
        exact h ⟨hbase, text, v, htext, htakes, hcause.imp_left fun hv => hv.2⟩
  · exact iff_of_true (fun _ => jsonToParam_returns _ value hbase) fun h => hbase h.1

/-- A zero of the largest scale is not taken by the driver. -/
theorem not_returns_scale_38 :
    ¬ ∀ (lib : Libraries) (value : Json) (xSqlType : String) (overflowChecks : Bool),
      Returns (jsonToParam { lib with overflowChecks := overflowChecks } value xSqlType) := by
  intro h
  have hpanic : jsonToParam numericLibraries (.str "0") "decimal(38,38)" =
      .error (.panic "assertion failed: scale < 38") := by
    rfl
  exact h numericLibraries (.str "0") "decimal(38,38)" true _ hpanic

end Panics

end SqlServerMcp.DecimalParams
