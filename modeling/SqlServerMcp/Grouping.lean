import Mathlib.Data.Finset.Card
import Mathlib.Data.List.Induction
import SqlServerMcp.AssocMap

/-!
Grouping a list by a key. A dictionary takes the members in order: a new key
starts a group, and the group of an old key takes the next member in place. The
keys come in the order of their first members.
-/
namespace SqlServerMcp.Grouping

open AssocMap

variable {A K V : Type*} [DecidableEq K] (key : A → K) (start : V) (put : V → A → V)

def enter (groups : Map K V) (a : A) : Map K V :=
  groups.insert (key a) (put ((groups.get (key a)).getD start) a)

def gather (l : List A) : Map K V := l.foldl (enter key start put) Map.empty

/-- The first member of each key. -/
def firsts : List A → List A
  | [] => []
  | a :: rest => a :: (firsts rest).filter fun b => key b ≠ key a

theorem filter_key_eq_nil {l : List A} {k : K} (h : k ∉ l.map key) :
    (l.filter fun a => key a = k) = [] := by
  apply List.filter_eq_nil_iff.mpr
  intro a ha hkey
  exact h (List.mem_map.mpr ⟨a, ha, of_decide_eq_true hkey⟩)

theorem gather_concat (l : List A) (a : A) :
    gather key start put (l ++ [a]) = enter key start put (gather key start put l) a := by
  unfold gather
  rw [List.foldl_append, List.foldl_cons, List.foldl_nil]

/-- A group holds the members of its key, put in one after another. -/
theorem get_gather (l : List A) (k : K) :
    (gather key start put l).get k =
      if k ∈ l.map key then some ((l.filter fun a => key a = k).foldl put start) else none := by
  induction l using List.reverseRecOn with
  | nil => rfl
  | append_singleton l a ih =>
    rw [gather_concat]
    unfold enter
    rw [Map.get_insert]
    by_cases hk : k = key a
    · subst hk
      have hold : ((gather key start put l).get (key a)).getD start =
          (l.filter fun b => key b = key a).foldl put start := by
        rw [ih]
        by_cases hmem : key a ∈ l.map key
        · rw [if_pos hmem, Option.getD_some]
        · rw [if_neg hmem, filter_key_eq_nil key hmem]
          rfl
      simp [hold]
    · have hne : key a ≠ k := Ne.symm hk
      simp [hk, hne, ih]

theorem get_gather_eq_some_iff (l : List A) (k : K) (v : V) :
    (gather key start put l).get k = some v ↔
      k ∈ l.map key ∧ (l.filter fun a => key a = k).foldl put start = v := by
  rw [get_gather]
  by_cases hk : k ∈ l.map key <;> simp [hk]

/-- Groups that collect a part of their members are a filter of the list. -/
theorem getD_gather_collect {B : Type*} (f : A → B) (l : List A) (k : K) :
    ((gather key [] (fun group a => group ++ [f a]) l).get k).getD [] =
      (l.filter fun a => key a = k).map f := by
  have hfold : ∀ (members : List A) (group : List B),
      members.foldl (fun group a => group ++ [f a]) group = group ++ members.map f := by
    intro members
    induction members with
    | nil => simp
    | cons a rest ih => simp [ih]
  rw [get_gather]
  by_cases hk : k ∈ l.map key
  · rw [if_pos hk, Option.getD_some, hfold, List.nil_append]
  · rw [if_neg hk, filter_key_eq_nil key hk]
    rfl

theorem firsts_sublist (l : List A) : (firsts key l).Sublist l := by
  induction l with
  | nil => exact List.Sublist.slnil
  | cons a rest ih => exact (List.filter_sublist.trans ih).cons_cons a

theorem mem_map_firsts (l : List A) (k : K) : k ∈ (firsts key l).map key ↔ k ∈ l.map key := by
  induction l with
  | nil => rfl
  | cons a rest ih =>
    by_cases hk : k = key a
    · simp [firsts, hk]
    · have hfilter : k ∈ ((firsts key rest).filter fun b => key b ≠ key a).map key ↔
          k ∈ (firsts key rest).map key := by
        simp only [List.mem_map, List.mem_filter, decide_eq_true_eq]
        constructor
        · intro h
          obtain ⟨b, ⟨hb, _⟩, hbk⟩ := h
          exact ⟨b, hb, hbk⟩
        · intro h
          obtain ⟨b, hb, hbk⟩ := h
          exact ⟨b, ⟨hb, fun hba => hk (hbk.symm.trans hba)⟩, hbk⟩
      have hcons : (firsts key (a :: rest)).map key =
          key a :: ((firsts key rest).filter fun b => key b ≠ key a).map key := rfl
      rw [hcons, List.map_cons, List.mem_cons, List.mem_cons, hfilter, ih]

theorem firsts_concat (l : List A) (a : A) :
    firsts key (l ++ [a]) =
      if key a ∈ l.map key then firsts key l else firsts key l ++ [a] := by
  induction l with
  | nil => rfl
  | cons b rest ih =>
    rw [List.cons_append, firsts, ih, firsts]
    by_cases hrest : key a ∈ rest.map key
    · have hcons : key a ∈ (b :: rest).map key := List.mem_cons_of_mem _ hrest
      rw [if_pos hrest, if_pos hcons]
    · rw [if_neg hrest, List.filter_append]
      by_cases hb : key a = key b
      · simp [hb]
      · have hcons : key a ∉ (b :: rest).map key := by
          rw [List.map_cons, List.mem_cons]
          exact fun h => h.elim hb hrest
        rw [if_neg hcons]
        simp [hb]

/-- The groups stand in the order in which their keys first occurred. -/
theorem keys_gather (l : List A) :
    keys (gather key start put l).entries = (firsts key l).map key := by
  induction l using List.reverseRecOn with
  | nil => rfl
  | append_singleton l a ih =>
    have hmem : key a ∈ keys (gather key start put l).entries ↔ key a ∈ l.map key := by
      rw [ih, mem_map_firsts]
    rw [gather_concat, firsts_concat]
    by_cases ha : key a ∈ l.map key
    · rw [if_pos ha, ← ih]
      exact keys_insert_of_mem _ _ _ (hmem.mpr ha)
    · have hnone : (gather key start put l).get (key a) = none :=
        (lookup_eq_none_iff _ _).mpr fun h => ha (hmem.mp h)
      have hnew : (enter key start put (gather key start put l) a).entries =
          (gather key start put l).entries ++
            [(key a, put (((gather key start put l).get (key a)).getD start) a)] :=
        Map.entries_insert_of_get_eq_none _ _ _ hnone
      rw [if_neg ha, List.map_append, ← ih, hnew]
      simp [keys]

/-- No earlier member has the key of a first one. -/
theorem head_filter_firsts {l : List A} {a : A} (h : a ∈ firsts key l) :
    (l.filter fun b => key b = key a).head? = some a := by
  induction l with
  | nil => cases h
  | cons b rest ih =>
    rcases List.mem_cons.mp h with rfl | hrest
    · simp
    · obtain ⟨hmem, hne⟩ := List.mem_filter.mp hrest
      have hba : key b ≠ key a := fun hb => (of_decide_eq_true hne) hb.symm
      rw [List.filter_cons_of_neg (by simpa using hba)]
      exact ih hmem

theorem nodup_map_firsts (l : List A) : ((firsts key l).map key).Nodup := by
  rw [← keys_gather key () (fun _ _ => ()) l]
  exact (gather key () (fun _ _ => ()) l).distinct

/-- There are as many first members as there are keys. -/
theorem length_firsts (l : List A) : (firsts key l).length = (l.map key).toFinset.card := by
  have hkeys : ((firsts key l).map key).toFinset = (l.map key).toFinset := by
    ext k
    rw [List.mem_toFinset, List.mem_toFinset, mem_map_firsts]
  rw [← hkeys, List.toFinset_card_of_nodup (nodup_map_firsts key l), List.length_map]

/-- A first member of a part that comes first is one of the whole list. -/
theorem head_filter_of_firsts_take {l : List A} {n : ℕ} {a : A}
    (h : a ∈ firsts key (l.take n)) : (l.filter fun b => key b = key a).head? = some a := by
  have hhead := head_filter_firsts key h
  rw [← List.take_append_drop n l, List.filter_append, List.head?_append, hhead, Option.some_or]

section Cut

variable (l : List A) (n : ℕ)

theorem card_take_le : ((l.take n).map key).toFinset.card ≤ min n (l.map key).toFinset.card := by
  have hlength := List.toFinset_card_le ((l.take n).map key)
  rw [List.length_map, List.length_take] at hlength
  have hsubset : ((l.take n).map key).toFinset ⊆ (l.map key).toFinset := by
    intro k hk
    rw [List.mem_toFinset] at hk ⊢
    exact List.map_subset key (List.take_subset n l) hk
  have hcard := Finset.card_le_card hsubset
  omega

/-- A cut has as many keys as it can have when its members all differ in their
keys, or when no key of the list is beyond the cut alone. -/
theorem card_take_eq_min_iff :
    ((l.take n).map key).toFinset.card = min n (l.map key).toFinset.card ↔
      ((l.take n).map key).Nodup ∨ ∀ a ∈ l, key a ∈ (l.take n).map key := by
  have hle := card_take_le key l n
  have hlength : ((l.take n).map key).length = min n l.length := by
    rw [List.length_map, List.length_take]
  have hcut := List.toFinset_card_le ((l.take n).map key)
  constructor
  · intro heq
    by_cases hn : n ≤ (l.map key).toFinset.card
    · left
      rw [← Multiset.coe_nodup, ← Multiset.toFinset_card_eq_card_iff_nodup]
      show ((l.take n).map key).toFinset.card = ((l.take n).map key).length
      omega
    · right
      have hall : ((l.take n).map key).toFinset = (l.map key).toFinset := by
        apply Finset.eq_of_subset_of_card_le
        · intro k hk
          rw [List.mem_toFinset] at hk ⊢
          exact List.map_subset key (List.take_subset n l) hk
        · omega
      intro a ha
      rw [← List.mem_toFinset, hall, List.mem_toFinset]
      exact List.mem_map_of_mem ha
  · intro h
    obtain hnodup | hall := h
    · rw [List.toFinset_card_of_nodup hnodup, hlength] at hle ⊢
      have hmax := List.toFinset_card_le (l.map key)
      rw [List.length_map] at hmax
      omega
    · have hsame : (l.map key).toFinset ⊆ ((l.take n).map key).toFinset := by
        intro k hk
        rw [List.mem_toFinset] at hk ⊢
        obtain ⟨a, ha, rfl⟩ := List.mem_map.mp hk
        exact hall a ha
      have hcard := Finset.card_le_card hsame
      omega

end Cut

end SqlServerMcp.Grouping
