import Mathlib.Data.List.Nodup
import Mathlib.Data.List.Sort
import Mathlib.Data.Prod.Lex

/-!
Sorting by a key, and choosing the first of the best. When no two members of a
list have the same key, the sorted list is strictly increasing and does not
depend on the order in which the list came. Members of one key keep their order,
so that a second key which increases along them can be sorted by as well.
-/
namespace SqlServerMcp.Ranking

variable {A B K T : Type*}

section Sorting

variable [LinearOrder K] [LinearOrder T] (key : A → K)

def sortOn (l : List A) : List A := l.insertionSort fun a b => key a ≤ key b

theorem sortOn_perm (l : List A) : (sortOn key l).Perm l := List.perm_insertionSort _ l

theorem sortOn_pairwise_le (l : List A) : (sortOn key l).Pairwise fun a b => key a ≤ key b := by
  have htotal : Std.Total fun a b : A => key a ≤ key b := ⟨fun a b => le_total _ _⟩
  have htrans : IsTrans A fun a b => key a ≤ key b := ⟨fun a b c hab hbc => hab.trans hbc⟩
  exact List.pairwise_insertionSort _ l

omit [LinearOrder K] in
private theorem nodup_map_of_perm {l l' : List A} (hp : l.Perm l') (h : (l.map key).Nodup) :
    (l'.map key).Nodup :=
  (hp.map key).nodup_iff.mp h

theorem pairwise_lt_of_le {l : List A} (hle : l.Pairwise fun a b => key a ≤ key b)
    (h : (l.map key).Nodup) : l.Pairwise fun a b => key a < key b := by
  have hne : l.Pairwise fun a b => key a ≠ key b := List.pairwise_map.mp h
  refine (hle.and hne).imp ?_
  intro a b hab
  exact lt_of_le_of_ne hab.1 hab.2

theorem sortOn_pairwise_lt {l : List A} (h : (l.map key).Nodup) :
    (sortOn key l).Pairwise fun a b => key a < key b :=
  pairwise_lt_of_le key (sortOn_pairwise_le key l)
    (nodup_map_of_perm key (sortOn_perm key l).symm h)

/-- There is only one strictly increasing arrangement. -/
theorem eq_of_pairwise_lt {l l' : List A} (hp : l.Perm l')
    (h : l.Pairwise fun a b => key a < key b) (h' : l'.Pairwise fun a b => key a < key b) :
    l = l' := by
  refine List.Perm.eq_of_pairwise ?_ h h' hp
  intro a b _ _ hab hba
  exact absurd hba (lt_asymm hab)

/-- Without equal keys the sorted list does not depend on the order before. -/
theorem sortOn_eq_of_perm {l l' : List A} (hp : l.Perm l') (h : (l.map key).Nodup) :
    sortOn key l = sortOn key l' := by
  refine eq_of_pairwise_lt key ?_ (sortOn_pairwise_lt key h)
    (sortOn_pairwise_lt key (nodup_map_of_perm key hp h))
  exact (sortOn_perm key l).trans (hp.trans (sortOn_perm key l').symm)

/-- The part of distinct keys comes in one order, whatever the rest. -/
theorem filter_sortOn_eq_of_perm {l l' : List A} (hp : l.Perm l') (p : A → Bool)
    (h : ((l.filter p).map key).Nodup) :
    (sortOn key l).filter p = (sortOn key l').filter p := by
  have hsorted : ∀ m : List A, ((m.filter p).map key).Nodup →
      ((sortOn key m).filter p).Pairwise fun a b => key a < key b := by
    intro m hm
    apply pairwise_lt_of_le key ((sortOn_pairwise_le key m).filter p)
    exact nodup_map_of_perm key ((sortOn_perm key m).filter p).symm hm
  refine eq_of_pairwise_lt key ?_ (hsorted l h)
    (hsorted l' (nodup_map_of_perm key (hp.filter p) h))
  exact ((sortOn_perm key l).trans (hp.trans (sortOn_perm key l').symm)).filter p

theorem map_sortOn (f : A → B) (key' : B → K) (hkey : ∀ a, key' (f a) = key a) (l : List A) :
    (sortOn key l).map f = sortOn key' (l.map f) := by
  refine List.map_insertionSort _ _ f l ?_
  intro a _ b _
  simp only [hkey]

private theorem orderedInsert_congr {r s : A → A → Prop} [DecidableRel r] [DecidableRel s]
    (a : A) (l : List A) (h : ∀ b ∈ l, (r a b ↔ s a b)) :
    l.orderedInsert r a = l.orderedInsert s a := by
  induction l with
  | nil => rfl
  | cons b rest ih =>
    have hb : r a b ↔ s a b := h b (by simp)
    have hrest := ih fun c hc => h c (by simp [hc])
    simp only [List.orderedInsert_cons, hb, hrest]

/-- Sorting keeps the order of members of one key, so a second key may be added
that increases along them. -/
theorem sortOn_eq_sortOn_tie (tie : A → T) {l : List A}
    (h : l.Pairwise fun a b => key a = key b → tie a < tie b) :
    sortOn key l = sortOn (fun a => toLex (key a, tie a)) l := by
  induction l with
  | nil => rfl
  | cons a rest ih =>
    obtain ⟨ha, hrest⟩ := List.pairwise_cons.mp h
    have hsorted := ih hrest
    unfold sortOn at hsorted ⊢
    rw [List.insertionSort_cons, List.insertionSort_cons, ← hsorted]
    apply orderedInsert_congr
    intro b hb
    have hmem : b ∈ rest := (List.perm_insertionSort _ rest).mem_iff.mp hb
    rw [Prod.Lex.toLex_le_toLex]
    constructor
    · intro hle
      rcases lt_or_eq_of_le hle with hlt | heq
      · exact Or.inl hlt
      · exact Or.inr ⟨heq, (ha b hmem heq).le⟩
    · intro hlex
      rcases hlex with hlt | ⟨heq, _⟩
      · exact hlt.le
      · exact heq.le

end Sorting

section Numbers

variable (key : A → ℕ)

def rank (l : List A) : List A := l.insertionSort fun a b => key a ≤ key b

theorem rank_perm (l : List A) : (rank key l).Perm l := sortOn_perm key l

theorem rank_pairwise_lt {l : List A} (h : (l.map key).Nodup) :
    (rank key l).Pairwise fun a b => key a < key b := sortOn_pairwise_lt key h

theorem rank_eq_of_perm {l l' : List A} (hp : l.Perm l') (h : (l.map key).Nodup) :
    rank key l = rank key l' := sortOn_eq_of_perm key hp h

theorem map_rank (f : A → B) (key' : B → ℕ) (hkey : ∀ a, key' (f a) = key a) (l : List A) :
    (rank key l).map f = rank key' (l.map f) := map_sortOn key f key' hkey l

end Numbers

section Choosing

variable (score : A → ℤ) (value : A → B)

/-- One step of a search for the best: a later one must be better. -/
def better (best : ℤ × B) (a : A) : ℤ × B :=
  if score a > best.1 then (score a, value a) else best

/-- The first member of the highest score, or the value it started with. -/
def choose (start : ℤ × B) (l : List A) : ℤ × B := l.foldl (better score value) start

theorem choose_spec (start : ℤ × B) (l : List A) :
    (choose score value start l = start ∧ ∀ a ∈ l, score a ≤ start.1) ∨
    ∃ before a after, l = before ++ a :: after ∧
      choose score value start l = (score a, value a) ∧ start.1 < score a ∧
      (∀ b ∈ before, score b < score a) ∧ ∀ b ∈ after, score b ≤ score a := by
  induction l generalizing start with
  | nil => exact Or.inl ⟨rfl, by simp⟩
  | cons x rest ih =>
    have hstep : choose score value start (x :: rest) =
        choose score value (better score value start x) rest := rfl
    by_cases hx : score x > start.1
    · have hbetter : better score value start x = (score x, value x) := if_pos hx
      rw [hstep, hbetter]
      rcases ih (score x, value x) with ⟨hkept, hle⟩ | ⟨before, a, after, rfl, ha, hlt, hb, hc⟩
      · exact Or.inr ⟨[], x, rest, rfl, hkept, hx, by simp, hle⟩
      · refine Or.inr ⟨x :: before, a, after, rfl, ha, hx.trans hlt, ?_, hc⟩
        intro b hmem
        rcases List.mem_cons.mp hmem with rfl | hmem
        · exact hlt
        · exact hb b hmem
    · have hbetter : better score value start x = start := if_neg hx
      rw [hstep, hbetter]
      rcases ih start with ⟨hkept, hle⟩ | ⟨before, a, after, rfl, ha, hlt, hb, hc⟩
      · refine Or.inl ⟨hkept, ?_⟩
        intro b hmem
        rcases List.mem_cons.mp hmem with rfl | hmem
        · exact not_lt.mp hx
        · exact hle b hmem
      · refine Or.inr ⟨x :: before, a, after, rfl, ha, hlt, ?_, hc⟩
        intro b hmem
        rcases List.mem_cons.mp hmem with rfl | hmem
        · exact lt_of_le_of_lt (not_lt.mp hx) hlt
        · exact hb b hmem

/-- When every score beats the start, a member of the highest score is chosen,
and in a list of increasing places it is the first one of that score. -/
theorem choose_best (place : A → ℕ) (start : ℤ × B) {l : List A} (hne : l ≠ [])
    (hplaces : l.Pairwise fun a b => place a < place b) (h : ∀ a ∈ l, start.1 < score a) :
    ∃ a ∈ l, choose score value start l = (score a, value a) ∧
      (∀ b ∈ l, score b ≤ score a) ∧ ∀ b ∈ l, place b < place a → score b < score a := by
  rcases choose_spec score value start l with
    ⟨_, hle⟩ | ⟨before, a, after, rfl, hchoose, _, hbefore, hafter⟩
  · obtain ⟨a, rest, rfl⟩ := List.exists_cons_of_ne_nil hne
    exact absurd (h a List.mem_cons_self) (not_lt.mpr (hle a List.mem_cons_self))
  · have hlater : ∀ b ∈ after, place a < place b :=
      (List.pairwise_cons.mp (List.pairwise_append.mp hplaces).2.1).1
    have hcases : ∀ b ∈ before ++ a :: after, b ∈ before ∨ b = a ∨ b ∈ after := by
      intro b hb
      rwa [List.mem_append, List.mem_cons] at hb
    refine ⟨a, List.mem_append_right _ List.mem_cons_self, hchoose, ?_, ?_⟩
    · intro b hb
      rcases hcases b hb with hmem | rfl | hmem
      · exact (hbefore b hmem).le
      · exact le_refl _
      · exact hafter b hmem
    · intro b hb hplace
      rcases hcases b hb with hmem | rfl | hmem
      · exact hbefore b hmem
      · omega
      · have hlt := hlater b hmem
        omega

theorem choose_map {C : Type*} (f : C → A) (start : ℤ × B) (l : List C) :
    choose score value start (l.map f) =
      choose (fun c => score (f c)) (fun c => value (f c)) start l :=
  List.foldl_map

/-- Choices by one score are related when the values are. -/
theorem choose_rel {C : Type*} (R : B → C → Prop) (value' : A → C) {l : List A}
    (h : ∀ a ∈ l, R (value a) (value' a)) (least : ℤ) {b : B} {c : C} (hbc : R b c) :
    R (choose score value (least, b) l).2 (choose score value' (least, c) l).2 := by
  induction l generalizing least b c with
  | nil => exact hbc
  | cons a rest ih =>
    have hrest : ∀ a' ∈ rest, R (value a') (value' a') := fun a' ha' =>
      h a' (List.mem_cons_of_mem a ha')
    unfold choose
    rw [List.foldl_cons, List.foldl_cons]
    unfold better
    by_cases ha : score a > least
    · rw [if_pos ha, if_pos ha]
      exact ih hrest (score a) (h a List.mem_cons_self)
    · rw [if_neg ha, if_neg ha]
      exact ih hrest least hbc

end Choosing

end SqlServerMcp.Ranking
