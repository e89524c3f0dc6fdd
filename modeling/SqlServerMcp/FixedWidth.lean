import Mathlib.Data.Int.Basic
import Mathlib.Tactic.NormNum

/-!
Fixed-width integers as integers with the bounds of their width. A value outside
the range cannot be built; a checked conversion between two widths succeeds
exactly on the common range.
-/
namespace SqlServerMcp.FixedWidth

structure RangedInt (lo hi : ℤ) where
  val : ℤ
  lower : lo ≤ val
  upper : val < hi
  deriving DecidableEq

abbrev U8 := RangedInt 0 (2 ^ 8)
abbrev U16 := RangedInt 0 (2 ^ 16)
abbrev U32 := RangedInt 0 (2 ^ 32)
abbrev U64 := RangedInt 0 (2 ^ 64)
abbrev I16 := RangedInt (-2 ^ 15) (2 ^ 15)
abbrev I32 := RangedInt (-2 ^ 31) (2 ^ 31)
abbrev I64 := RangedInt (-2 ^ 63) (2 ^ 63)
abbrev I128 := RangedInt (-2 ^ 127) (2 ^ 127)

namespace RangedInt

variable {lo hi lo' hi' : ℤ}

@[ext] theorem ext {a b : RangedInt lo hi} (h : a.val = b.val) : a = b := by
  cases a
  cases b
  simpa using h

/-- Checked conversion: `none` outside the range. -/
def tryFrom (lo hi : ℤ) (i : ℤ) : Option (RangedInt lo hi) :=
  if h : lo ≤ i ∧ i < hi then some ⟨i, h.1, h.2⟩ else none

theorem wrapped_bounds (n : ℕ) (i : ℤ) :
    -2 ^ n ≤ (i + 2 ^ n) % (2 * 2 ^ n) - 2 ^ n ∧ (i + 2 ^ n) % (2 * 2 ^ n) - 2 ^ n < 2 ^ n := by
  have hpos : (0 : ℤ) < 2 ^ n := Int.pow_pos (by omega)
  have hnonneg := Int.emod_nonneg (i + 2 ^ n) (by omega : (2 : ℤ) * 2 ^ n ≠ 0)
  have hlt := Int.emod_lt_of_pos (i + 2 ^ n) (by omega : (0 : ℤ) < 2 * 2 ^ n)
  constructor <;> omega

/-- The number of a signed width that differs by a multiple of the width. -/
def wrapSigned (n : ℕ) (i : ℤ) : RangedInt (-2 ^ n) (2 ^ n) :=
  ⟨(i + 2 ^ n) % (2 * 2 ^ n) - 2 ^ n, (wrapped_bounds n i).1, (wrapped_bounds n i).2⟩

/-- Lossless conversion into a width that contains this one. -/
def widen (a : RangedInt lo hi) (hlo : lo' ≤ lo) (hhi : hi ≤ hi') : RangedInt lo' hi' :=
  ⟨a.val, le_trans hlo a.lower, lt_of_lt_of_le a.upper hhi⟩

theorem tryFrom_eq_some_iff (i : ℤ) (a : RangedInt lo hi) :
    tryFrom lo hi i = some a ↔ a.val = i := by
  unfold tryFrom
  split
  · rename_i h
    constructor
    · intro heq
      exact (congrArg val (Option.some.inj heq)).symm
    · intro heq
      exact congrArg some (ext heq.symm)
  · rename_i h
    constructor
    · simp
    · intro heq
      exact absurd ⟨heq ▸ a.lower, heq ▸ a.upper⟩ h

theorem exists_tryFrom (lo hi : ℤ) {i : ℤ} (hlower : lo ≤ i) (hupper : i < hi) :
    ∃ a : RangedInt lo hi, tryFrom lo hi i = some a ∧ a.val = i :=
  ⟨⟨i, hlower, hupper⟩, (tryFrom_eq_some_iff i _).mpr rfl, rfl⟩

@[simp] theorem tryFrom_val (a : RangedInt lo hi) : tryFrom lo hi a.val = some a :=
  (tryFrom_eq_some_iff a.val a).mpr rfl

/-- A number of the width is kept. -/
theorem wrapSigned_val {n : ℕ} {i : ℤ} (hlower : -2 ^ n ≤ i) (hupper : i < 2 ^ n) :
    (wrapSigned n i).val = i := by
  have hmod := Int.emod_eq_of_lt (by omega : 0 ≤ i + 2 ^ n) (by omega : i + 2 ^ n < 2 * 2 ^ n)
  have hval : (wrapSigned n i).val = (i + 2 ^ n) % (2 * 2 ^ n) - 2 ^ n := rfl
  rw [hval, hmod, add_sub_cancel_right]

/-- The number after the largest one is the smallest one. -/
theorem wrapSigned_pow (n : ℕ) : (wrapSigned n (2 ^ n)).val = -2 ^ n := by
  have hval : (wrapSigned n (2 ^ n)).val = (2 ^ n + 2 ^ n) % (2 * 2 ^ n) - 2 ^ n := rfl
  rw [hval, ← two_mul, Int.emod_self, zero_sub]

@[simp] theorem widen_val (a : RangedInt lo hi) (hlo : lo' ≤ lo) (hhi : hi ≤ hi') :
    (a.widen hlo hhi).val = a.val := rfl

theorem widen_injective (hlo : lo' ≤ lo) (hhi : hi ≤ hi') :
    Function.Injective (fun a : RangedInt lo hi => a.widen hlo hhi) := by
  intro a b h
  have hval : (a.widen hlo hhi).val = (b.widen hlo hhi).val := congrArg val h
  exact ext hval

end RangedInt
end SqlServerMcp.FixedWidth
