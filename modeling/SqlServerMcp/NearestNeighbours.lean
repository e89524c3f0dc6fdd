import Mathlib.Data.List.Perm.Basic
import Mathlib.Data.List.Sort
import Mathlib.Order.Defs.LinearOrder

/-!
The `k` nearest rows of a table. Rows at one distance may be taken in any order,
so a choice is a relation. Joining a choice with another table drops the rows that
have no partner: what remains is still nearest among the rows that have one, but
it may be fewer rows than there could be.
-/
namespace SqlServerMcp.NearestNeighbours

variable {α β D : Type*} [LinearOrder D]

/-- The rows that are chosen and the rows that are left over. -/
structure Nearest (distance : α → D) (k : ℕ) (rows chosen left : List α) : Prop where
  perm : (chosen ++ left).Perm rows
  length : chosen.length = min k rows.length
  nearer : ∀ a ∈ chosen, ∀ b ∈ left, distance a ≤ distance b

variable {distance : α → D} {k : ℕ} {rows chosen left : List α}

/-- The first rows of a sorted table are a choice. -/
theorem nearest_take (h : rows.Pairwise fun a b => distance a ≤ distance b) (k : ℕ) :
    Nearest distance k rows (rows.take k) (rows.drop k) where
  perm := by rw [List.take_append_drop]
  length := List.length_take
  nearer := by
    rw [← List.take_append_drop k rows] at h
    intro a ha b hb
    exact (List.pairwise_append.mp h).2.2 a ha b hb

theorem Nearest.mem_rows (h : Nearest distance k rows chosen left) {a : α} (ha : a ∈ chosen) :
    a ∈ rows := h.perm.subset (List.mem_append_left _ ha)

theorem Nearest.perm_chosen (h : Nearest distance k rows chosen left) {chosen' : List α}
    (hperm : chosen'.Perm chosen) : Nearest distance k rows chosen' left where
  perm := (hperm.append_right left).trans h.perm
  length := hperm.length_eq.trans h.length
  nearer := fun a ha => h.nearer a (hperm.subset ha)

theorem Nearest.perm_rows (h : Nearest distance k rows chosen left) {rows' : List α}
    (hperm : rows.Perm rows') : Nearest distance k rows' chosen left where
  perm := h.perm.trans hperm
  length := h.length.trans (by rw [hperm.length_eq])
  nearer := h.nearer

/-- The distances may be those of other things that the rows stand for. -/
theorem Nearest.map (h : Nearest distance k rows chosen left) {distance' : β → D} {f : α → β}
    (hdistance : ∀ a ∈ rows, distance' (f a) = distance a) :
    Nearest distance' k (rows.map f) (chosen.map f) (left.map f) where
  perm := by
    rw [← List.map_append]
    exact h.perm.map f
  length := by rw [List.length_map, List.length_map, h.length]
  nearer := by
    have hright : ∀ b ∈ left, b ∈ rows := fun b hb =>
      h.perm.subset (List.mem_append_right _ hb)
    intro a ha b hb
    obtain ⟨a', ha', rfl⟩ := List.mem_map.mp ha
    obtain ⟨b', hb', rfl⟩ := List.mem_map.mp hb
    rw [hdistance a' (h.mem_rows ha'), hdistance b' (hright b' hb')]
    exact h.nearer a' ha' b' hb'

variable {distance' : β → D} {f : α → Option β}

/-- What a choice keeps in a join is a choice among all rows of the join. -/
theorem Nearest.filterMap (h : Nearest distance k rows chosen left)
    (hdistance : ∀ a b, f a = some b → distance' b = distance a) :
    Nearest distance' (chosen.filterMap f).length (rows.filterMap f) (chosen.filterMap f)
      (left.filterMap f) where
  perm := by
    rw [← List.filterMap_append]
    exact h.perm.filterMap f
  length := by
    have hlength : (chosen.filterMap f).length ≤ (rows.filterMap f).length := by
      rw [← (h.perm.filterMap f).length_eq, List.filterMap_append, List.length_append]
      exact Nat.le_add_right _ _
    exact (Nat.min_eq_left hlength).symm
  nearer := by
    intro a ha b hb
    obtain ⟨a', ha', hfa⟩ := List.mem_filterMap.mp ha
    obtain ⟨b', hb', hfb⟩ := List.mem_filterMap.mp hb
    rw [hdistance a' a hfa, hdistance b' b hfb]
    exact h.nearer a' ha' b' hb'

/-- It keeps as many as there can be, unless it drops a row that is chosen while
one with a partner is left over. -/
theorem Nearest.length_filterMap_eq_iff (h : Nearest distance k rows chosen left) :
    (chosen.filterMap f).length = min k (rows.filterMap f).length ↔
      (∀ a ∈ chosen, (f a).isSome = true) ∨ ∀ b ∈ left, (f b).isSome = false := by
  have hrows : (rows.filterMap f).length =
      (chosen.filterMap f).length + (left.filterMap f).length := by
    rw [← (h.perm.filterMap f).length_eq, List.filterMap_append, List.length_append]
  have htotal : rows.length = chosen.length + left.length := by
    rw [← h.perm.length_eq, List.length_append]
  have hchosen := List.length_filterMap_le f chosen
  have hleft := List.length_filterMap_le f left
  have hall : (∀ a ∈ chosen, (f a).isSome = true) ↔
      (chosen.filterMap f).length = chosen.length := List.filterMap_length_eq_length.symm
  have hnone : (∀ b ∈ left, (f b).isSome = false) ↔ (left.filterMap f).length = 0 := by
    rw [List.length_eq_zero_iff, List.filterMap_eq_nil_iff]
    simp only [Option.isSome_eq_false_iff, Option.isNone_iff_eq_none]
  have hlength := h.length
  rw [hall, hnone]
  omega

end SqlServerMcp.NearestNeighbours
