import Mathlib.Data.List.Forall2

/-!
Fallible computations as `Except` values. A sequence of steps succeeds exactly
when every step does, and then its result is made of theirs.
-/
namespace SqlServerMcp.Results

variable {E A B : Type}

theorem ok_bind (a : A) (g : A → Except E B) : (Except.ok a >>= g) = g a := rfl

theorem error_bind (e : E) (g : A → Except E B) :
    ((Except.error e : Except E A) >>= g) = .error e := rfl

theorem bind_eq_ok (x : Except E A) (g : A → Except E B) (b : B) :
    (x >>= g) = .ok b ↔ ∃ a, x = .ok a ∧ g a = .ok b := by
  cases x <;> simp [bind, Except.bind]

theorem bind_eq_error (x : Except E A) (g : A → Except E B) (e : E) :
    (x >>= g) = .error e ↔ x = .error e ∨ ∃ a, x = .ok a ∧ g a = .error e := by
  cases x <;> simp [bind, Except.bind]

theorem map_eq_ok (x : Except E A) (g : A → B) (b : B) :
    x.map g = .ok b ↔ ∃ a, x = .ok a ∧ g a = b := by
  cases x <;> simp [Except.map]

theorem map_eq_error (x : Except E A) (g : A → B) (e : E) :
    x.map g = .error e ↔ x = .error e := by
  cases x <;> simp [Except.map]

theorem forM_eq_ok (l : List A) (g : A → Except E Unit) (h : ∀ a ∈ l, g a = .ok ()) :
    l.forM g = .ok () := by
  induction l with
  | nil => rfl
  | cons a rest ih =>
    have hrest : rest.forM g = .ok () := ih fun b hb => h b (List.mem_cons_of_mem a hb)
    have hstep : (a :: rest).forM g = (g a >>= fun _ => rest.forM g) := rfl
    rw [hstep, h a List.mem_cons_self]
    exact hrest

theorem mapM_congr {l : List A} {g g' : A → Except E B} (h : ∀ a ∈ l, g a = g' a) :
    l.mapM g = l.mapM g' := by
  induction l with
  | nil => rfl
  | cons a rest ih =>
    simp only [List.forall_mem_cons] at h
    rw [List.mapM_cons, List.mapM_cons, h.1, ih h.2]

/-- A map over a list succeeds with the list of the results. -/
theorem mapM_eq_ok_iff (l : List A) (g : A → Except E B) (r : List B) :
    l.mapM g = .ok r ↔ List.Forall₂ (fun a b => g a = .ok b) l r := by
  induction l generalizing r with
  | nil =>
    rw [List.mapM_nil, List.forall₂_nil_left_iff]
    constructor
    · intro h
      exact (Except.ok.inj h).symm
    · intro h'
      subst h'
      rfl
  | cons a rest ih =>
    rw [List.mapM_cons, bind_eq_ok]
    constructor
    · intro hparts
      rcases hparts with ⟨b, hb, hrest⟩
      obtain ⟨bs, hbs, hr⟩ := (bind_eq_ok _ _ _).mp hrest
      obtain rfl := Except.ok.inj hr
      exact List.Forall₂.cons hb ((ih bs).mp hbs)
    · intro h
      cases h with
      | @cons _ b _ bs hb hbs =>
        refine ⟨b, hb, (bind_eq_ok _ _ _).mpr ⟨bs, (ih bs).mpr hbs, rfl⟩⟩

theorem forall₂_getElem? {A B : Type} {R : A → B → Prop} {l : List A} {r : List B}
    (h : List.Forall₂ R l r) {i : ℕ} {a : A} {b : B} (ha : l[i]? = some a)
    (hb : r[i]? = some b) : R a b := by
  obtain ⟨hi, rfl⟩ := List.getElem?_eq_some_iff.mp ha
  obtain ⟨hj, rfl⟩ := List.getElem?_eq_some_iff.mp hb
  exact h.get hi hj

/-- The result at a position is that of the member there. -/
theorem getElem?_of_mapM {l : List A} {g : A → Except E B} {r : List B}
    (h : l.mapM g = .ok r) {i : ℕ} {a : A} (ha : l[i]? = some a) :
    ∃ b, r[i]? = some b ∧ g a = .ok b := by
  have hall := (mapM_eq_ok_iff l g r).mp h
  obtain ⟨hi, -⟩ := List.getElem?_eq_some_iff.mp ha
  have hlt : i < r.length := hall.length_eq ▸ hi
  have hb : r[i]? = some r[i] := List.getElem?_eq_getElem hlt
  exact ⟨r[i], hb, forall₂_getElem? hall ha hb⟩

theorem length_of_mapM {l : List A} {g : A → Except E B} {r : List B}
    (h : l.mapM g = .ok r) : r.length = l.length :=
  ((mapM_eq_ok_iff l g r).mp h).length_eq.symm

/-- A loop that adds the result of one step at a time collects the results of
all steps. -/
theorem foldlM_eq_map_mapM {S : Type} (g : A → Except E B) (add : S → B → S) (l : List A)
    (s : S) :
    l.foldlM (fun acc a => (g a).map (add acc)) s = (l.mapM g).map (fun bs => bs.foldl add s) := by
  induction l generalizing s with
  | nil => rfl
  | cons a rest ih =>
    rw [List.foldlM_cons, List.mapM_cons]
    cases g a with
    | error e => rfl
    | ok b =>
      have hstep : (Except.ok b : Except E B).map (add s) = .ok (add s b) := rfl
      rw [hstep, ok_bind, ok_bind, ih (add s b)]
      cases rest.mapM g <;> rfl

end SqlServerMcp.Results
