import Mathlib.Analysis.InnerProductSpace.Basic

/-!
Nearness among vectors of about unit length. The nearer of two vectors has the
larger inner product with the centre, up to a slack that depends on how far the
lengths are from one and on the error of the distances.
-/
namespace SqlServerMcp.UnitVectors

variable {E : Type*} [NormedAddCommGroup E] [InnerProductSpace ℝ E]

def NearUnit (ε : ℝ) (v : E) : Prop := |‖v‖ - 1| ≤ ε

/-- What lengths within `ε` of one and distances within `δ` of the true ones can
cost. -/
def slack (ε δ : ℝ) : ℝ := 2 • (ε + 2 • (δ * (1 + ε)) + δ ^ 2)

@[simp] theorem slack_zero : slack 0 0 = 0 := by simp [slack]

/-- The inner product in terms of the sides of the triangle. -/
theorem inner_eq_of_sides (q v : E) :
    inner ℝ q v = (‖q‖ ^ 2 + ‖v‖ ^ 2 - ‖q - v‖ ^ 2) / 2 := by
  have hsides := norm_sub_sq_real q v
  linarith

omit [InnerProductSpace ℝ E] in
theorem norm_bounds {ε : ℝ} {v : E} (h : NearUnit ε v) : 1 - ε ≤ ‖v‖ ∧ ‖v‖ ≤ 1 + ε := by
  obtain ⟨hlow, hhigh⟩ := abs_le.mp h
  constructor <;> linarith

omit [InnerProductSpace ℝ E] in
theorem sq_norm_sub_le {ε : ℝ} (hε : ε ≤ 1) {a b : E} (ha : NearUnit ε a) (hb : NearUnit ε b) :
    ‖b‖ ^ 2 - ‖a‖ ^ 2 ≤ 4 * ε := by
  have hlow : (1 - ε) ^ 2 ≤ ‖a‖ ^ 2 :=
    pow_le_pow_left₀ (sub_nonneg.mpr hε) (norm_bounds ha).1 2
  have hhigh : ‖b‖ ^ 2 ≤ (1 + ε) ^ 2 :=
    pow_le_pow_left₀ (norm_nonneg b) (norm_bounds hb).2 2
  have hdiff : (1 + ε) ^ 2 - (1 - ε) ^ 2 = 4 * ε := by ring
  linarith

/-- A vector that is not much farther than another has not a much smaller inner
product. -/
theorem inner_le_of_norm_sub_le {ε δ : ℝ} (hε : ε ≤ 1) (hδ : 0 ≤ δ) {q a b : E}
    (hq : NearUnit ε q) (ha : NearUnit ε a) (hb : NearUnit ε b)
    (h : ‖q - a‖ ≤ ‖q - b‖ + 2 * δ) : inner ℝ q b ≤ inner ℝ q a + slack ε δ := by
  have hlengths := sq_norm_sub_le hε ha hb
  have hsquare : ‖q - a‖ ^ 2 ≤ (‖q - b‖ + 2 * δ) ^ 2 :=
    pow_le_pow_left₀ (norm_nonneg _) h 2
  have hfar : ‖q - b‖ ≤ 2 * (1 + ε) := by
    have htriangle := norm_sub_le q b
    have hqb := add_le_add (norm_bounds hq).2 (norm_bounds hb).2
    linarith
  have hcross : δ * ‖q - b‖ ≤ δ * (2 * (1 + ε)) := mul_le_mul_of_nonneg_left hfar hδ
  have hexpand : (‖q - b‖ + 2 * δ) ^ 2 = ‖q - b‖ ^ 2 + 4 * (δ * ‖q - b‖) + 4 * δ ^ 2 := by ring
  have hslack : slack ε δ = 2 * ε + 2 * (δ * (2 * (1 + ε))) + 2 * δ ^ 2 := by
    rw [slack, two_nsmul, two_nsmul]
    ring
  rw [inner_eq_of_sides q a, inner_eq_of_sides q b, hslack]
  linarith

/-- The same for distances that are measured with an error. -/
theorem inner_le_of_measured_le {ε δ : ℝ} (hε : ε ≤ 1) {q a b : E} (hq : NearUnit ε q)
    (ha : NearUnit ε a) (hb : NearUnit ε b) {da db : ℝ} (hda : |da - ‖q - a‖| ≤ δ)
    (hdb : |db - ‖q - b‖| ≤ δ) (h : da ≤ db) :
    inner ℝ q b ≤ inner ℝ q a + slack ε δ := by
  have hδ : 0 ≤ δ := (abs_nonneg _).trans hda
  obtain ⟨halow, -⟩ := abs_le.mp hda
  obtain ⟨-, hbhigh⟩ := abs_le.mp hdb
  refine inner_le_of_norm_sub_le hε hδ hq ha hb ?_
  linarith

end SqlServerMcp.UnitVectors
