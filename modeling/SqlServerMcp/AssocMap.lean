import Mathlib.Data.List.Nodup
import Mathlib.Data.List.Perm.Basic

/-!
Finite maps as association lists in iteration order. Reading is `List.lookup`;
an insertion overwrites the value at an existing key in place and appends a new
key at the end. A map whose keys are distinct can be listed in any order
without changing what is read from it.
-/
namespace SqlServerMcp.AssocMap

variable {K V : Type*} [DecidableEq K]

abbrev Entries (K V : Type*) := List (K × V)

def keys (m : Entries K V) : List K := m.map Prod.fst

def insert (m : Entries K V) (k : K) (v : V) : Entries K V :=
  match m with
  | [] => [(k, v)]
  | (k', v') :: rest => if k' = k then (k, v) :: rest else (k', v') :: insert rest k v

/-- All entries of `other` are inserted, in order, on top of `m`. -/
def extend (m other : Entries K V) : Entries K V :=
  other.foldl (fun acc e => insert acc e.1 e.2) m

def DistinctKeys (m : Entries K V) : Prop := (keys m).Nodup

instance (m : Entries K V) : Decidable (DistinctKeys m) := by
  unfold DistinctKeys
  infer_instance

omit [DecidableEq K] in
@[simp] theorem keys_nil : keys ([] : Entries K V) = [] := rfl

omit [DecidableEq K] in
@[simp] theorem keys_cons (e : K × V) (m : Entries K V) :
    keys (e :: m) = e.1 :: keys m := rfl

theorem lookup_cons (k' : K) (v' : V) (m : Entries K V) (k : K) :
    ((k', v') :: m).lookup k = if k = k' then some v' else m.lookup k := by
  by_cases hk : k = k'
  · subst hk
    simp
  · have hne : (k == k') = false := by simpa using hk
    simp [List.lookup_cons, hne, hk]

theorem lookup_insert (m : Entries K V) (k j : K) (v : V) :
    (insert m k v).lookup j = if j = k then some v else m.lookup j := by
  induction m with
  | nil => simp [insert, lookup_cons]
  | cons e rest ih =>
    obtain ⟨k', v'⟩ := e
    by_cases hk : k' = k
    · subst hk
      by_cases hj : j = k' <;> simp [insert, lookup_cons, hj]
    · by_cases hj : j = k'
      · subst hj
        simp [insert, hk]
      · simp [insert, hk, lookup_cons, hj, ih]

@[simp] theorem lookup_insert_self (m : Entries K V) (k : K) (v : V) :
    (insert m k v).lookup k = some v := by simp [lookup_insert]

theorem lookup_insert_of_ne (m : Entries K V) {k j : K} (v : V) (h : j ≠ k) :
    (insert m k v).lookup j = m.lookup j := by simp [lookup_insert, h]

theorem mem_keys_iff (m : Entries K V) (k : K) :
    k ∈ keys m ↔ ∃ v, m.lookup k = some v := by
  induction m with
  | nil => simp
  | cons e rest ih =>
    obtain ⟨k', v'⟩ := e
    by_cases hk : k = k'
    · subst hk
      simp
    · simp [lookup_cons, hk, ih]

theorem lookup_eq_none_iff (m : Entries K V) (k : K) :
    m.lookup k = none ↔ k ∉ keys m := by
  rw [mem_keys_iff, ← Option.ne_none_iff_exists', not_not]

theorem mem_keys_insert (m : Entries K V) (k j : K) (v : V) :
    j ∈ keys (insert m k v) ↔ j = k ∨ j ∈ keys m := by
  by_cases hj : j = k <;> simp [mem_keys_iff, lookup_insert, hj]

theorem insert_of_notMem (m : Entries K V) (k : K) (v : V) (h : k ∉ keys m) :
    insert m k v = m ++ [(k, v)] := by
  induction m with
  | nil => rfl
  | cons e rest ih =>
    simp only [keys_cons, List.mem_cons, not_or] at h
    have hk : ¬ e.1 = k := fun he => h.1 he.symm
    simp only [insert, hk, if_false, ih h.2, List.cons_append]

theorem keys_insert_of_mem (m : Entries K V) (k : K) (v : V) (h : k ∈ keys m) :
    keys (insert m k v) = keys m := by
  induction m with
  | nil => cases h
  | cons e rest ih =>
    by_cases hk : e.1 = k
    · simp [insert, hk]
    · have hrest : k ∈ keys rest := by simpa [Ne.symm hk] using h
      simp [insert, hk, ih hrest]

theorem length_insert_le (m : Entries K V) (k : K) (v : V) :
    (insert m k v).length ≤ m.length + 1 := by
  induction m with
  | nil => simp [insert]
  | cons e rest ih =>
    by_cases hk : e.1 = k
    · simp [insert, hk]
    · simpa [insert, hk] using ih

theorem DistinctKeys.insert {m : Entries K V} (h : DistinctKeys m) (k : K) (v : V) :
    DistinctKeys (insert m k v) := by
  induction m with
  | nil => simp [AssocMap.insert, DistinctKeys]
  | cons e rest ih =>
    obtain ⟨k', v'⟩ := e
    have hrest : k' ∉ keys rest ∧ DistinctKeys rest := List.nodup_cons.mp h
    by_cases hk : k' = k
    · subst hk
      simpa [AssocMap.insert, DistinctKeys] using h
    · simp only [AssocMap.insert, hk, if_false]
      refine List.nodup_cons.mpr ⟨?_, ih hrest.2⟩
      intro hmem
      rcases (mem_keys_insert rest k k' v).mp hmem with heq | hold
      · exact hk heq
      · exact hrest.1 hold

theorem insert_insert (m : Entries K V) (k : K) (v w : V) :
    insert (insert m k v) k w = insert m k w := by
  induction m with
  | nil => simp [insert]
  | cons e rest ih =>
    obtain ⟨k', v'⟩ := e
    by_cases hk : k' = k <;> simp [insert, hk, ih]

/-- An existing key keeps its place, so its value can as well be set before
another key is entered. -/
theorem insert_comm_of_mem {m : Entries K V} {k j : K} (hk : k ∈ keys m) (hj : j ≠ k) (v w : V) :
    insert (insert m j w) k v = insert (insert m k v) j w := by
  induction m with
  | nil => simp at hk
  | cons e rest ih =>
    obtain ⟨k', v'⟩ := e
    by_cases hk' : k' = k
    · subst hk'
      simp [insert, Ne.symm hj]
    · have hrest : k ∈ keys rest := by simpa [Ne.symm hk'] using hk
      by_cases hj' : k' = j
      · simp [insert, hj', hj]
      · simp [insert, hk', hj', ih hrest]

/-- Two maps that only differ in the value of a key become equal once the key is
set. -/
theorem extend_eq_of_set {m m' other : Entries K V} {k : K} (hk : k ∈ keys m)
    (hk' : k ∈ keys m') (hset : ∀ v, insert m k v = insert m' k v) (hother : k ∈ keys other) :
    extend m other = extend m' other := by
  induction other generalizing m m' with
  | nil => simp at hother
  | cons e rest ih =>
    have hstep : ∀ n, extend n (e :: rest) = extend (insert n e.1 e.2) rest := fun n => rfl
    rw [hstep, hstep]
    by_cases he : e.1 = k
    · rw [he, hset e.2]
    · have hrest : k ∈ keys rest := by simpa [Ne.symm he] using hother
      have hmem : ∀ n, k ∈ keys n → k ∈ keys (insert n e.1 e.2) := fun n hn =>
        (mem_keys_insert n e.1 k e.2).mpr (Or.inr hn)
      refine ih (hmem m hk) (hmem m' hk') (fun v => ?_) hrest
      rw [insert_comm_of_mem hk he, insert_comm_of_mem hk' he, hset v]

/-- The value of an entry whose key is entered again later is lost. -/
theorem extend_cons_of_mem (m other : Entries K V) {k : K} (v w : V) (h : k ∈ keys other) :
    extend m ((k, v) :: other) = extend m ((k, w) :: other) := by
  have hmem : ∀ u, k ∈ keys (insert m k u) := fun u =>
    (mem_keys_insert m k k u).mpr (Or.inl rfl)
  refine extend_eq_of_set (hmem v) (hmem w) (fun u => ?_) h
  rw [insert_insert, insert_insert]

/-- In a map with distinct keys an entry is what reading its key returns. -/
theorem lookup_eq_some_iff_mem {m : Entries K V} (h : DistinctKeys m) (k : K) (v : V) :
    m.lookup k = some v ↔ (k, v) ∈ m := by
  induction m with
  | nil => simp
  | cons e rest ih =>
    obtain ⟨k', v'⟩ := e
    have hrest : k' ∉ keys rest ∧ DistinctKeys rest := List.nodup_cons.mp h
    by_cases hk : k = k'
    · subst hk
      have hnot : (k, v) ∉ rest := by
        intro hmem
        exact hrest.1 (List.mem_map_of_mem (f := Prod.fst) hmem)
      simp [hnot, eq_comm]
    · simp [lookup_cons, hk, ih hrest.2]

omit [DecidableEq K] in
theorem DistinctKeys.perm {m m' : Entries K V} (h : DistinctKeys m) (hp : m.Perm m') :
    DistinctKeys m' := (hp.map Prod.fst).nodup_iff.mp h

/-- Reading does not depend on the iteration order. -/
theorem lookup_perm {m m' : Entries K V} (h : DistinctKeys m) (hp : m.Perm m') (k : K) :
    m'.lookup k = m.lookup k := by
  apply Option.ext
  intro v
  rw [lookup_eq_some_iff_mem h, lookup_eq_some_iff_mem (h.perm hp), hp.mem_iff]

theorem lookup_extend (m other : Entries K V) (h : DistinctKeys other) (k : K) :
    (extend m other).lookup k = (other.lookup k).or (m.lookup k) := by
  induction other generalizing m with
  | nil => simp [extend]
  | cons e rest ih =>
    obtain ⟨k', v'⟩ := e
    have hrest : k' ∉ keys rest ∧ DistinctKeys rest := List.nodup_cons.mp h
    have hstep : extend m ((k', v') :: rest) = extend (AssocMap.insert m k' v') rest := rfl
    rw [hstep, ih _ hrest.2, lookup_insert]
    by_cases hk : k = k'
    · subst hk
      simp [(lookup_eq_none_iff rest k).mpr hrest.1]
    · simp [lookup_cons, hk]

/-- New and distinct keys are appended in order. -/
theorem extend_eq_append {m other : Entries K V} (h : DistinctKeys (m ++ other)) :
    extend m other = m ++ other := by
  induction other generalizing m with
  | nil => simp [extend]
  | cons e rest ih =>
    have hstep : extend m (e :: rest) = extend (AssocMap.insert m e.1 e.2) rest := rfl
    have happend : m ++ e :: rest = (m ++ [e]) ++ rest := by simp
    have hnew : e.1 ∉ keys m := by
      have hnodup : (keys m ++ keys (e :: rest)).Nodup := by
        simpa only [DistinctKeys, keys, List.map_append] using h
      intro hmem
      exact (List.nodup_append.mp hnodup).2.2 e.1 hmem e.1 (by simp) rfl
    rw [hstep, insert_of_notMem m e.1 e.2 hnew, happend]
    exact ih (happend ▸ h)

/-- Of the new entries under one key the last one counts. -/
theorem lookup_extend_reverse (m other : Entries K V) (k : K) :
    (extend m other).lookup k = (other.reverse.lookup k).or (m.lookup k) := by
  induction other generalizing m with
  | nil => simp [extend]
  | cons e rest ih =>
    obtain ⟨k', v'⟩ := e
    have hstep : extend m ((k', v') :: rest) = extend (AssocMap.insert m k' v') rest := rfl
    rw [hstep, ih, List.reverse_cons, List.lookup_append, Option.or_assoc, lookup_insert,
      lookup_cons]
    by_cases hk : k = k' <;> simp [hk]

def erase (m : Entries K V) (k : K) : Entries K V := m.filter fun e => e.1 ≠ k

theorem erase_cons (e : K × V) (m : Entries K V) (k : K) :
    erase (e :: m) k = if e.1 = k then erase m k else e :: erase m k := by
  by_cases hk : e.1 = k <;> simp [erase, hk]

theorem lookup_erase (m : Entries K V) (k j : K) :
    (erase m k).lookup j = if j = k then none else m.lookup j := by
  induction m with
  | nil => simp [erase]
  | cons e rest ih =>
    obtain ⟨k', v'⟩ := e
    rw [erase_cons]
    by_cases hk : k' = k
    · subst hk
      rw [if_pos rfl, ih]
      by_cases hj : j = k' <;> simp [lookup_cons, hj]
    · rw [if_neg hk, lookup_cons, ih, lookup_cons]
      by_cases hj : j = k'
      · subst hj
        simp [hk]
      · simp [hj]

/-- Entries under other keys do not count. -/
theorem lookup_filter_key (m : Entries K V) {kept : K → Bool} {k : K} (h : kept k = true) :
    (m.filter fun e => kept e.1).lookup k = m.lookup k := by
  induction m with
  | nil => rfl
  | cons e rest ih =>
    obtain ⟨k', v'⟩ := e
    by_cases hkept : kept k' = true
    · rw [List.filter_cons, if_pos hkept, lookup_cons, lookup_cons, ih]
    · have hne : k ≠ k' := by
        rintro rfl
        exact hkept h
      rw [List.filter_cons, if_neg hkept, lookup_cons, if_neg hne, ih]

/-- Entries that agree in their keys are looked up alike. -/
theorem lookup_rel {W : Type*} {R : V → W → Prop} {m : Entries K V} {m' : Entries K W}
    (h : List.Forall₂ (fun e e' => e.1 = e'.1 ∧ R e.2 e'.2) m m') (k : K) :
    Option.Rel R (m.lookup k) (m'.lookup k) := by
  induction h with
  | nil => exact .none
  | @cons e e' _ _ he _ ih =>
    obtain ⟨k', v⟩ := e
    obtain ⟨_, w⟩ := e'
    obtain ⟨rfl, hvw⟩ := he
    rw [lookup_cons, lookup_cons]
    by_cases hk : k = k'
    · rw [if_pos hk, if_pos hk]
      exact .some hvw
    · rw [if_neg hk, if_neg hk]
      exact ih

omit [DecidableEq K] in
theorem exists_of_rel_left {W : Type*} {R : V → W → Prop} {x : Option V} {y : Option W} {v : V}
    (h : Option.Rel R x y) (hx : x = some v) : ∃ w, y = some w ∧ R v w := by
  cases h with
  | none => cases hx
  | some hvw => exact ⟨_, rfl, Option.some.inj hx ▸ hvw⟩

omit [DecidableEq K] in
theorem exists_of_rel_right {W : Type*} {R : V → W → Prop} {x : Option V} {y : Option W} {w : W}
    (h : Option.Rel R x y) (hy : y = some w) : ∃ v, x = some v ∧ R v w := by
  cases h with
  | none => cases hy
  | some hvw => exact ⟨_, rfl, Option.some.inj hy ▸ hvw⟩

theorem lookup_map_const (l : List K) (v : V) (k : K) :
    (l.map fun k' => (k', v)).lookup k = if k ∈ l then some v else none := by
  induction l with
  | nil => rfl
  | cons k' rest ih =>
    rw [List.map_cons, lookup_cons, ih]
    by_cases hk : k = k' <;> simp [hk]

theorem length_insert_of_mem (m : Entries K V) (k : K) (v : V) (h : k ∈ keys m) :
    (insert m k v).length = m.length := by
  have hkeys := congrArg List.length (keys_insert_of_mem m k v h)
  rw [keys, keys, List.length_map, List.length_map] at hkeys
  exact hkeys

theorem length_insert_pos (m : Entries K V) (k : K) (v : V) : 0 < (insert m k v).length := by
  cases m with
  | nil => exact Nat.one_pos
  | cons e rest =>
    rw [insert]
    split <;> exact Nat.succ_pos _

theorem length_erase_le (m : Entries K V) (k : K) : (erase m k).length ≤ m.length :=
  List.length_filter_le _ m

theorem length_erase_lt_of_mem (m : Entries K V) (k : K) (h : k ∈ keys m) :
    (erase m k).length < m.length := by
  obtain ⟨e, he, hk⟩ := List.mem_map.mp h
  apply List.length_filter_lt_length_iff_exists.mpr
  exact ⟨e, he, by simp [hk]⟩

omit [DecidableEq K] in
theorem DistinctKeys.sublist {m m' : Entries K V} (h : DistinctKeys m) (hsub : m'.Sublist m) :
    DistinctKeys m' :=
  List.Nodup.sublist (hsub.map Prod.fst) h

omit [DecidableEq K] in
theorem keys_filterMap_sublist {A : Type*} (m : Entries K V) (f : K × V → Option A) (key : A → K)
    (h : ∀ e a, f e = some a → key a = e.1) : ((m.filterMap f).map key).Sublist (keys m) := by
  induction m with
  | nil => exact List.Sublist.slnil
  | cons e rest ih =>
    cases he : f e with
    | none =>
      rw [List.filterMap_cons_none he]
      exact ih.cons e.1
    | some a =>
      rw [List.filterMap_cons_some he, List.map_cons, h e a he]
      exact ih.cons_cons e.1

/-- A list of entries whose keys are distinct. -/
structure Map (K V : Type*) where
  entries : Entries K V
  distinct : DistinctKeys entries

namespace Map

omit [DecidableEq K] in
@[ext] theorem ext {m m' : Map K V} (h : m.entries = m'.entries) : m = m' := by
  cases m
  cases m'
  simpa using h

def empty : Map K V := ⟨[], List.nodup_nil⟩

def get (m : Map K V) (k : K) : Option V := m.entries.lookup k

def insert (m : Map K V) (k : K) (v : V) : Map K V :=
  ⟨AssocMap.insert m.entries k v, m.distinct.insert k v⟩

def erase (m : Map K V) (k : K) : Map K V :=
  ⟨AssocMap.erase m.entries k, m.distinct.sublist List.filter_sublist⟩

def extend (m other : Map K V) : Map K V :=
  other.entries.foldl (fun acc e => acc.insert e.1 e.2) m

def size (m : Map K V) : ℕ := m.entries.length

@[simp] theorem get_empty (k : K) : (empty : Map K V).get k = none := rfl

theorem get_insert (m : Map K V) (k j : K) (v : V) :
    (m.insert k v).get j = if j = k then some v else m.get j :=
  lookup_insert m.entries k j v

@[simp] theorem get_insert_self (m : Map K V) (k : K) (v : V) :
    (m.insert k v).get k = some v := by simp [get_insert]

theorem get_insert_of_ne (m : Map K V) {k j : K} (v : V) (h : j ≠ k) :
    (m.insert k v).get j = m.get j := by simp [get_insert, h]

theorem get_erase (m : Map K V) (k j : K) :
    (m.erase k).get j = if j = k then none else m.get j :=
  lookup_erase m.entries k j

theorem get_ne_none_iff (m : Map K V) (k : K) : m.get k ≠ none ↔ k ∈ keys m.entries := by
  rw [Option.ne_none_iff_exists', mem_keys_iff]
  rfl

/-- A new key takes one place more, a key that is present takes none. -/
theorem size_insert_le (m : Map K V) (k : K) (v : V) :
    (m.insert k v).size ≤ if m.get k = none then m.size + 1 else m.size := by
  by_cases hnone : m.get k = none
  · rw [if_pos hnone]
    exact length_insert_le m.entries k v
  · rw [if_neg hnone]
    exact Nat.le_of_eq (length_insert_of_mem m.entries k v ((m.get_ne_none_iff k).mp hnone))

theorem size_insert_pos (m : Map K V) (k : K) (v : V) : 0 < (m.insert k v).size :=
  length_insert_pos m.entries k v

theorem size_erase_le (m : Map K V) (k : K) : (m.erase k).size ≤ m.size :=
  length_erase_le m.entries k

theorem size_erase_lt (m : Map K V) {k : K} (h : m.get k ≠ none) : (m.erase k).size < m.size :=
  length_erase_lt_of_mem m.entries k ((m.get_ne_none_iff k).mp h)

theorem entries_foldl_insert (l : Entries K V) (m : Map K V) :
    (l.foldl (fun acc e => acc.insert e.1 e.2) m).entries = AssocMap.extend m.entries l := by
  induction l generalizing m with
  | nil => rfl
  | cons e rest ih => exact ih (m.insert e.1 e.2)

theorem entries_foldl_insert_of_distinct (l : Entries K V) (h : DistinctKeys l) :
    (l.foldl (fun acc e => acc.insert e.1 e.2) (empty : Map K V)).entries = l := by
  rw [entries_foldl_insert]
  exact extend_eq_append h

theorem entries_insert_of_get_eq_none (m : Map K V) (k : K) (v : V) (h : m.get k = none) :
    (m.insert k v).entries = m.entries ++ [(k, v)] :=
  insert_of_notMem m.entries k v ((lookup_eq_none_iff m.entries k).mp h)

theorem mem_keys_foldl_insert {A : Type*} (l : List A) (key : A → K) (value : A → V)
    (m : Map K V) (k : K) :
    k ∈ keys (l.foldl (fun acc a => acc.insert (key a) (value a)) m).entries ↔
      k ∈ keys m.entries ∨ k ∈ l.map key := by
  induction l generalizing m with
  | nil => simp
  | cons a rest ih =>
    have hinsert : k ∈ keys (m.insert (key a) (value a)).entries ↔ k = key a ∨ k ∈ keys m.entries :=
      mem_keys_insert m.entries (key a) k (value a)
    rw [List.foldl_cons, ih, hinsert, List.map_cons, List.mem_cons]
    tauto

/-- Insertions under other keys leave a key alone. -/
theorem get_foldl_insert_of_notMem {A : Type*} (l : List A) (key : A → K) (value : A → V)
    (m : Map K V) {k : K} (h : k ∉ l.map key) :
    (l.foldl (fun acc a => acc.insert (key a) (value a)) m).get k = m.get k := by
  induction l generalizing m with
  | nil => rfl
  | cons a rest ih =>
    rw [List.map_cons, List.mem_cons, not_or] at h
    rw [List.foldl_cons, ih _ h.2, get_insert_of_ne m (value a) h.1]

theorem get_extend (m other : Map K V) (k : K) :
    (m.extend other).get k = (other.get k).or (m.get k) := by
  unfold get extend
  rw [entries_foldl_insert]
  exact lookup_extend m.entries other.entries other.distinct k

/-- Layers in decreasing priority, merged from the last to the first. -/
def overlay (layers : List (Map K V)) : Map K V :=
  layers.reverse.foldl extend empty

/-- The first layer that has a key decides its value. -/
theorem get_overlay (layers : List (Map K V)) (k : K) :
    (overlay layers).get k = layers.findSome? fun layer => layer.get k := by
  unfold overlay
  induction layers with
  | nil => rfl
  | cons layer rest ih =>
    simp only [List.reverse_cons, List.foldl_append, List.foldl_cons, List.foldl_nil]
    rw [get_extend, ih, List.findSome?_cons]
    cases layer.get k <;> rfl

/-- A layer decides what no other layer has a value for. -/
theorem get_overlay_of_silent {higher lower : List (Map K V)} (layer : Map K V) {k : K}
    (h : ∀ other ∈ higher ++ lower, other.get k = none) :
    (overlay (higher ++ layer :: lower)).get k = layer.get k := by
  have hhigher : higher.findSome? (fun other => other.get k) = none :=
    List.findSome?_eq_none_iff.mpr fun other hother => h other (List.mem_append_left _ hother)
  have hlower : lower.findSome? (fun other => other.get k) = none :=
    List.findSome?_eq_none_iff.mpr fun other hother => h other (List.mem_append_right _ hother)
  rw [get_overlay, List.findSome?_append, hhigher, Option.none_or, List.findSome?_cons, hlower]
  cases layer.get k <;> rfl

/-- A layer may be exchanged for one with the same value. -/
theorem get_overlay_congr (higher lower : List (Map K V)) {layer layer' : Map K V} {k : K}
    (h : layer.get k = layer'.get k) :
    (overlay (higher ++ layer :: lower)).get k = (overlay (higher ++ layer' :: lower)).get k := by
  rw [get_overlay, get_overlay, List.findSome?_append, List.findSome?_append, List.findSome?_cons,
    List.findSome?_cons, h]

end Map

end SqlServerMcp.AssocMap
