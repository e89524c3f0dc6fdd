import Mathlib.Data.Nat.Log
import Mathlib.Tactic.NormNum

/-!
The interchange formats of floating-point numbers as bit fields: a sign, an
exponent and a fraction. Every binary32 number is a binary64 number; its fields
in the wider format determine those in the narrower one.
-/
namespace SqlServerMcp.FloatBits

/-- The exponent and fraction fields of a binary32 number in binary64. -/
def widenFields (exponent fraction : ℕ) : ℕ × ℕ :=
  if exponent = 255 then (2047, fraction * 2 ^ 29)
  else if exponent ≠ 0 then (exponent + 896, fraction * 2 ^ 29)
  else if fraction = 0 then (0, 0)
  -- A number below the normal range of binary32 is a normal one of binary64.
  else (Nat.log 2 fraction + 874,
    (fraction - 2 ^ Nat.log 2 fraction) * 2 ^ (52 - Nat.log 2 fraction))

def fieldsOf (bits : UInt32) : ℕ × ℕ :=
  widenFields (bits.toNat / 2 ^ 23 % 2 ^ 8) (bits.toNat % 2 ^ 23)

/-- The binary64 number that a binary32 number is. -/
def widen (bits : UInt32) : UInt64 :=
  UInt64.ofNat (bits.toNat / 2 ^ 31 * 2 ^ 63 + (fieldsOf bits).1 * 2 ^ 52 + (fieldsOf bits).2)

theorem log_fraction_le {fraction : ℕ} (hfraction : fraction < 2 ^ 23) :
    Nat.log 2 fraction ≤ 22 := by
  have hlt : Nat.log 2 fraction < 23 := Nat.log_lt_of_lt_pow' (by norm_num) hfraction
  omega

theorem widenFields_lt {exponent fraction : ℕ} (hexponent : exponent < 2 ^ 8)
    (hfraction : fraction < 2 ^ 23) :
    (widenFields exponent fraction).1 < 2 ^ 11 ∧ (widenFields exponent fraction).2 < 2 ^ 52 := by
  have hlog := log_fraction_le hfraction
  unfold widenFields
  split
  · constructor <;> dsimp only <;> omega
  · split
    · constructor <;> dsimp only <;> omega
    · split
      · norm_num
      · rename_i hne
        have hupper : fraction < 2 ^ Nat.log 2 fraction * 2 := by
          simpa [pow_succ] using Nat.lt_pow_succ_log_self (b := 2) (by norm_num) fraction
        have hrest : fraction - 2 ^ Nat.log 2 fraction < 2 ^ Nat.log 2 fraction := by omega
        have hscaled := Nat.mul_lt_mul_of_pos_right hrest
          (Nat.pow_pos (n := 52 - Nat.log 2 fraction) (by norm_num : 0 < 2))
        rw [← pow_add, Nat.add_sub_cancel' (by omega)] at hscaled
        constructor
        · dsimp only
          omega
        · exact hscaled

/-- The subnormal fractions of one bit length. -/
theorem subnormal_injective {f f' : ℕ} (hf : f ≠ 0) (hf' : f' ≠ 0)
    (hlog : Nat.log 2 f = Nat.log 2 f')
    (h : (f - 2 ^ Nat.log 2 f) * 2 ^ (52 - Nat.log 2 f) =
      (f' - 2 ^ Nat.log 2 f') * 2 ^ (52 - Nat.log 2 f')) : f = f' := by
  have hle : 2 ^ Nat.log 2 f ≤ f := Nat.pow_log_le_self 2 hf
  have hle' : 2 ^ Nat.log 2 f' ≤ f' := Nat.pow_log_le_self 2 hf'
  rw [← hlog] at h hle'
  have hpos : 0 < 2 ^ (52 - Nat.log 2 f) := Nat.pow_pos (by norm_num)
  have hrest := Nat.eq_of_mul_eq_mul_right hpos h
  omega

/-- The three ranges of exponents stay apart, and so do the fractions of one
exponent. -/
theorem widenFields_injective {e f e' f' : ℕ} (he : e < 2 ^ 8) (hf : f < 2 ^ 23)
    (he' : e' < 2 ^ 8) (hf' : f' < 2 ^ 23) (h : widenFields e f = widenFields e' f') :
    e = e' ∧ f = f' := by
  have hlog := log_fraction_le hf
  have hlog' := log_fraction_le hf'
  unfold widenFields at h
  -- Only two subnormal numbers can have equal fields without being equal at once.
  split_ifs at h <;> simp only [Prod.mk.injEq] at h <;> try omega
  rename_i hne _ _ hne'
  exact ⟨by omega, subnormal_injective hne hne' (by omega) h.2⟩

theorem widen_toNat (bits : UInt32) : (widen bits).toNat =
    bits.toNat / 2 ^ 31 * 2 ^ 63 + (fieldsOf bits).1 * 2 ^ 52 + (fieldsOf bits).2 := by
  have hfields : (fieldsOf bits).1 < 2 ^ 11 ∧ (fieldsOf bits).2 < 2 ^ 52 :=
    widenFields_lt (Nat.mod_lt _ (by norm_num)) (Nat.mod_lt _ (by norm_num))
  have hbits := bits.toNat_lt
  unfold widen
  rw [UInt64.toNat_ofNat', Nat.mod_eq_of_lt (by omega)]

theorem widen_injective : Function.Injective widen := by
  intro a b h
  have hfields : ∀ bits, (fieldsOf bits).1 < 2 ^ 11 ∧ (fieldsOf bits).2 < 2 ^ 52 := fun bits =>
    widenFields_lt (Nat.mod_lt _ (by norm_num)) (Nat.mod_lt _ (by norm_num))
  have ha := hfields a
  have hb := hfields b
  have hnat := congrArg UInt64.toNat h
  rw [widen_toNat, widen_toNat] at hnat
  have hsame : fieldsOf a = fieldsOf b := Prod.ext (by omega) (by omega)
  have hparts := widenFields_injective (Nat.mod_lt _ (by norm_num)) (Nat.mod_lt _ (by norm_num))
    (Nat.mod_lt _ (by norm_num)) (Nat.mod_lt _ (by norm_num)) hsame
  have hlt := a.toNat_lt
  have hlt' := b.toNat_lt
  rw [hsame] at hnat
  exact UInt32.toNat_inj.mp (by omega)

end SqlServerMcp.FloatBits
