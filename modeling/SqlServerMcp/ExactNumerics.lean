import SqlServerMcp.Decimals
import SqlServerMcp.Generator
import SqlServerMcp.SqlType

/-!
Exact numeric parameters from the catalog to the driver. The generator writes
their type as text and the client reads precision and scale back from it; the
scale decides which decimals are bound.
-/
namespace SqlServerMcp.ExactNumerics

open Decimals FixedWidth Generator JsonValue SqlType SqlValue Text

theorem sign_text (d : Decimal) :
    (match d.text with
      | '-' :: rest => ((-1 : ℤ), rest)
      | '+' :: rest => (1, rest)
      | rest => (1, rest)) = (d.signFactor, d.unsignedText) := by
  rw [Decimal.text, Decimal.signFactor]
  cases hsign : d.sign with
  | none =>
    cases hunsigned : d.unsignedText with
    | nil => rfl
    | cons c rest =>
      obtain ⟨hplus, hminus⟩ := d.head_unsignedText hunsigned
      simp [hplus, hminus]
  | some positive => cases positive <;> rfl

theorem byteLength_places (d : Decimal) : byteLength d.places = d.places.length := by
  have hone : d.places.map Char.utf8Size = d.places.map fun _ => 1 := by
    apply List.map_congr_left
    intro c hc
    exact (isDigit_plain (d.fraction_digits c hc)).2.2.2.2.2
  rw [byteLength, hone]
  simp

/-- A numeral with no more digits after its point than the scale is read as its
number of units, if that fits. -/
theorem parseNumeric_text (overflowChecks : Bool) (d : Decimal) (scale : U8)
    (hplaces : (d.places.length : ℤ) ≤ scale.val)
    (hfit : (d.unscaled scale.val.toNat).natAbs < 2 ^ 127) :
    ∃ value : I128, value.val = d.unscaled scale.val.toNat ∧
      parseNumeric overflowChecks (String.ofList d.text) scale =
        Numeric.newWithScale value scale := by
  have hle : d.places.length ≤ scale.val.toNat := by omega
  have hdigits : ∀ c ∈ d.whole ++ padRight '0' scale.val.toNat d.places, c.isDigit := by
    intro c hc
    rw [padRight, ← List.append_assoc] at hc
    rcases List.mem_append.mp hc with hmem | hzero
    · exact d.isDigit_of_mem hmem
    · rw [List.eq_of_mem_replicate hzero]
      rfl
  have hne : d.whole ++ padRight '0' scale.val.toNat d.places ≠ [] := by
    rw [padRight, ← List.append_assoc]
    exact List.append_ne_nil_of_left_ne_nil d.nonempty _
  have hnatAbs := d.natAbs_unscaled scale.val.toNat
  obtain ⟨unsigned, hparse, hunsigned⟩ := parseInt_of_isDigit (-2 ^ 127) (2 ^ 127)
    (by norm_num) hne hdigits (by rw [← hnatAbs]; exact_mod_cast hfit)
  have hvalue : d.signFactor * unsigned.val = d.unscaled scale.val.toNat := by
    rw [hunsigned, d.digitsValue_padRight]
  obtain ⟨value, hproduct, hval⟩ := @product_of_bounds overflowChecks 127
    (d.unscaled scale.val.toNat) (by omega) (by omega)
  refine ⟨value, hval, ?_⟩
  have hshort : ¬ scale.val < (byteLength d.places : ℤ) := by
    rw [byteLength_places]
    omega
  rw [parseNumeric, String.toList_ofList,
    trim_eq_self fun c hc => d.not_isWhitespace_of_mem_text hc]
  split
  rename_i sign unsigned' hsplit
  obtain ⟨hsign, hunsigned'⟩ := Prod.mk.inj (hsplit.symm.trans (sign_text d))
  subst hsign hunsigned'
  simp only [d.splitOnce_unsignedText, hshort, if_false, hne, hparse, Results.ok_bind,
    hvalue, hproduct]

section TypeText

theorem toString_natCast (n : ℕ) : toString (n : ℤ) = toString n := rfl

theorem digit_not_in (n : ℕ) {c : Char} (h : c.isDigit = false) : c ∉ (toString n).toList := by
  intro hmem
  rw [isDigit_of_mem_toString hmem] at h
  contradiction

theorem trim_number (n : ℕ) : trim (toString n).toList = (toString n).toList := by
  apply trim_eq_self
  intro c hc
  exact (isDigit_plain (isDigit_of_mem_toString hc)).2.2.2.2.1

theorem parseInt_number (n : ℕ) (h : n < 2 ^ 8) :
    ∃ m : U8, parseInt 0 (2 ^ 8) (toString n).toList = .ok m ∧ m.val = n := by
  have hne : (toString n).toList ≠ [] := by
    rw [toString_nat_toList]
    exact Nat.toDigits_ne_nil
  obtain ⟨m, hm, hval⟩ := parseInt_of_isDigit 0 (2 ^ 8) (Int.le_refl 0) hne
    (fun c hc => isDigit_of_mem_toString hc) (by rw [digitsValue_toString]; exact_mod_cast h)
  rw [digitsValue_toString] at hval
  exact ⟨m, hm, hval⟩

/-- A type name with its precision and scale, as the generator writes it. -/
def sizedType (name : String) (precision scale : ℕ) : String :=
  name ++ "(" ++ toString (precision : ℤ) ++ "," ++ toString (scale : ℤ) ++ ")"

theorem toList_sizedType (name : String) (precision scale : ℕ) :
    (sizedType name precision scale).toList =
      name.toList ++
        '(' :: ((toString precision).toList ++ ',' :: (toString scale).toList ++ [')']) := by
  have hopen : "(".toList = ['('] := rfl
  have hcomma : ",".toList = [','] := rfl
  have hclose : ")".toList = [')'] := rfl
  simp only [sizedType, toString_natCast, String.toList_append, hopen, hcomma, hclose,
    List.append_assoc, List.nil_append, List.cons_append]

/-- The client reads precision and scale back. -/
theorem precisionScale_sizedType {name : String} (hname : '(' ∉ name.toList)
    {precision scale : ℕ} (hprecision : precision < 2 ^ 8) (hscale : scale < 2 ^ 8) :
    (precisionScale (sizedType name precision scale)).1.val = precision ∧
      (precisionScale (sizedType name precision scale)).2.val = scale := by
  obtain ⟨p, hp, hpval⟩ := parseInt_number precision hprecision
  obtain ⟨s, hs, hsval⟩ := parseInt_number scale hscale
  have hsplit : splitAll ',' ((toString precision).toList ++ ',' :: (toString scale).toList) =
      [(toString precision).toList, (toString scale).toList] := by
    rw [splitAll_append ',' _ (digit_not_in precision rfl),
      splitAll_of_notMem ',' (digit_not_in scale rfl)]
  have hread : precisionScale (sizedType name precision scale) = (p, s) := by
    rw [precisionScale, toList_sizedType, splitOnce_append '(' _ _ hname, Option.bind_some,
      stripSuffix_concat]
    simp only [hsplit, List.map_cons, List.map_nil, List.getElem?_cons_zero,
      List.getElem?_cons_succ, Option.map_some, trim_number, hp, hs]
  rw [hread]
  exact ⟨hpval, hsval⟩

theorem baseType_sizedType {name : String} (hname : '(' ∉ name.toList) (precision scale : ℕ) :
    baseType (sizedType name precision scale) =
      String.ofList (toAsciiLowercase (trim name.toList)) := by
  rw [baseType, toList_sizedType, splitAll_append '(' _ hname]
  rfl

end TypeText

/-- The catalog's row of an exact numeric parameter with its precision and scale. -/
structure ReportsExactNumeric (row : ParamRow) (precision scale : ℕ) : Prop where
  precision_eq : row.precision = some (precision : ℤ)
  scale_eq : row.scale = some (scale : ℤ)
  scale_le : scale ≤ precision
  precision_le : precision ≤ 38
  dataType : row.dataType = "decimal" ∨ row.dataType = "numeric" ∨
    (row.dataType = "money" ∨ row.dataType = "smallmoney") ∧ scale = 4

section Bind

variable (lib : Libraries)

/-- The text of an argument that may be a decimal. -/
def argumentText : Json → Option (List Char)
  | .str s => some s.toList
  | .num n => some (numberText lib.formatF64 n).toList
  | _ => none

/-- The argument is bound, and as the same number. -/
def BindsExactly (value : Json) (xSqlType : String) (d : Decimal) : Prop :=
  ∃ n : Numeric, jsonToParam lib value xSqlType = .ok (.numeric (some n)) ∧
    n.value.val * 10 ^ d.places.length = d.mantissa * 10 ^ n.scale.val.toNat

/-- The client recovers the scale, and binds every decimal of the type that has
no more digits after its point. -/
def KeepsScale (row : ParamRow) (precision scale : ℕ) : Prop :=
  (precisionScale row.sqlType).2.val = scale ∧
    ∀ (value : Json) (d : Decimal), argumentText lib value = some d.text →
      d.places.length ≤ scale → (d.unscaled scale).natAbs < 10 ^ precision →
        BindsExactly lib value row.sqlType d

/-- The type text of a decimal row. -/
theorem sqlType_of_decimal {row : ParamRow} {precision scale : ℕ}
    (h : ReportsExactNumeric row precision scale)
    (hdecimal : row.dataType = "decimal" ∨ row.dataType = "numeric") :
    row.sqlType = sizedType row.dataType precision scale := by
  have hlower : lower row.dataType ∈ precisionScaleTypes := by
    rcases hdecimal with hname | hname <;> rw [hname] <;> decide
  simp only [ParamRow.sqlType, formatSqlType, hlower, h.precision_eq, h.scale_eq,
    Option.isSome_some, and_self, if_true, Option.getD_some]
  rfl

/-- The type text of a money row has no scale. -/
theorem sqlType_of_money {row : ParamRow}
    (hmoney : row.dataType = "money" ∨ row.dataType = "smallmoney") :
    row.sqlType = row.dataType := by
  have hlower : lower row.dataType ∉ precisionScaleTypes ∧ lower row.dataType ∉ scaleOnlyTypes ∧
      lower row.dataType ∉ unicodeStringTypes ∧ lower row.dataType ∉ byteLengthStringTypes := by
    rcases hmoney with hname | hname <;> rw [hname] <;> decide
  simp only [ParamRow.sqlType, formatSqlType, hlower, false_and, if_false]

theorem precisionScale_of_decimal {row : ParamRow} {precision scale : ℕ}
    (h : ReportsExactNumeric row precision scale)
    (hdecimal : row.dataType = "decimal" ∨ row.dataType = "numeric") :
    (precisionScale row.sqlType).1.val = precision ∧
      (precisionScale row.sqlType).2.val = scale := by
  have hname : '(' ∉ row.dataType.toList := by
    rcases hdecimal with hname | hname <;> rw [hname] <;> decide
  have hscale := h.scale_le
  have hprecision := h.precision_le
  rw [sqlType_of_decimal h hdecimal]
  exact precisionScale_sizedType hname (by omega) (by omega)

theorem jsonToParam_of_decimal {row : ParamRow} {precision scale : ℕ}
    (h : ReportsExactNumeric row precision scale)
    (hdecimal : row.dataType = "decimal" ∨ row.dataType = "numeric") (value : Json) :
    jsonToParam lib value row.sqlType = (decimalParam lib value row.sqlType).map .numeric := by
  have hbase : baseType row.sqlType = row.dataType := by
    rw [sqlType_of_decimal h hdecimal]
    rcases hdecimal with hname | hname <;> rw [hname, baseType_sizedType (by decide)] <;> rfl
  unfold jsonToParam
  rcases hdecimal with hname | hname <;> rw [hbase, hname] <;> rfl

/-- An argument with a text is bound as what the text is read as. -/
theorem decimalParam_of_text {value : Json} {xSqlType : String} {text : List Char}
    (h : argumentText lib value = some text) :
    decimalParam lib value xSqlType =
      (parseNumeric lib.overflowChecks (String.ofList text) (precisionScale xSqlType).2).map
        some := by
  cases value with
  | str s =>
    rw [← Option.some.inj h, String.ofList_toList]
    rfl
  | num n =>
    rw [← Option.some.inj h, String.ofList_toList]
    rfl
  | null => contradiction
  | bool b => contradiction
  | arr items => contradiction
  | obj fields => contradiction

/-- A decimal type whose scale the driver takes binds every decimal that fits. -/
theorem bindsExactly_of_decimal {row : ParamRow} {precision scale : ℕ}
    (h : ReportsExactNumeric row precision scale)
    (hdecimal : row.dataType = "decimal" ∨ row.dataType = "numeric") (hscale : scale ≠ 38)
    {value : Json} {d : Decimal} (htext : argumentText lib value = some d.text)
    (hplaces : d.places.length ≤ scale) (hfit : (d.unscaled scale).natAbs < 10 ^ precision) :
    BindsExactly lib value row.sqlType d := by
  have hread := (precisionScale_of_decimal h hdecimal).2
  have hle := h.scale_le
  have hmax := h.precision_le
  have hnat : (precisionScale row.sqlType).2.val.toNat = scale := by omega
  have hpow : 10 ^ precision ≤ 10 ^ 38 := Nat.pow_le_pow_right (by omega) hmax
  have hwidth : 10 ^ 38 < 2 ^ 127 := by norm_num
  obtain ⟨v, hv, hparse⟩ := parseNumeric_text lib.overflowChecks d (precisionScale row.sqlType).2
    (by omega) (by rw [hnat]; omega)
  rw [hnat] at hv
  have hsmall : (precisionScale row.sqlType).2.val < 38 := by omega
  refine ⟨⟨v, (precisionScale row.sqlType).2, hsmall⟩, ?_, ?_⟩
  · rw [jsonToParam_of_decimal lib h hdecimal, decimalParam_of_text lib htext, hparse,
      Numeric.newWithScale, dif_pos hsmall]
    rfl
  · dsimp only
    rw [hv, hnat, d.unscaled_exact hplaces]

/-- The numeral zero. -/
def zero : Decimal where
  sign := none
  whole := ['0']
  fraction := none
  whole_digits := by
    intro c hc
    rw [List.mem_singleton.mp hc]
    rfl
  fraction_digits := by
    intro c hc
    contradiction
  nonempty := List.cons_ne_nil _ _

/-- The largest scale is not taken by the driver. -/
theorem not_bindsExactly_of_scale_38 {row : ParamRow} {precision : ℕ}
    (h : ReportsExactNumeric row precision 38)
    (hdecimal : row.dataType = "decimal" ∨ row.dataType = "numeric") :
    ¬ BindsExactly lib (.str "0") row.sqlType zero := by
  intro hbinds
  obtain ⟨n, hn, -⟩ := hbinds
  have hread := (precisionScale_of_decimal h hdecimal).2
  have hnat : (precisionScale row.sqlType).2.val.toNat = 38 := by omega
  have htext : argumentText lib (.str "0") = some zero.text := rfl
  have hplaces : zero.places.length = 0 := rfl
  have hunscaled : zero.unscaled 38 = 0 := rfl
  obtain ⟨v, -, hparse⟩ := parseNumeric_text lib.overflowChecks zero (precisionScale row.sqlType).2
    (by rw [hplaces]; omega) (by rw [hnat, hunscaled]; norm_num)
  rw [jsonToParam_of_decimal lib h hdecimal, decimalParam_of_text lib htext, hparse,
    Numeric.newWithScale, dif_neg (by omega)] at hn
  simp only [Except.map, reduceCtorEq] at hn

end Bind

/-- The first parameter of a procedure, of the given exact numeric type. -/
def amountRow (dataType : String) (precision scale : ℤ) : ParamRow where
  parameterName := some "@amount"
  ordinal := 1
  dataType := dataType
  maxLength := some 8
  precision := some precision
  scale := some scale
  isOutput := false
  hasDefaultValue := false
  defaultValue := none
  ordinal_lt := firstOrdinal_lt

theorem reports_decimal : ReportsExactNumeric (amountRow "decimal" 18 2) 18 2 where
  precision_eq := rfl
  scale_eq := rfl
  scale_le := by omega
  precision_le := by omega
  dataType := Or.inl rfl

theorem reports_money : ReportsExactNumeric (amountRow "money" 19 4) 19 4 where
  precision_eq := rfl
  scale_eq := rfl
  scale_le := by omega
  precision_le := by omega
  dataType := Or.inr (Or.inr ⟨Or.inl rfl, rfl⟩)

end SqlServerMcp.ExactNumerics
