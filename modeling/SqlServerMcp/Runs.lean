import Mathlib.Data.List.Basic

/-!
Runs of a machine that takes one event at a time. A step gives no state for an
event that cannot happen. The rules here carry what one step preserves to every
state that a run reaches, and say when a condition on the steps is exact.
-/
namespace SqlServerMcp.Runs

variable {S E : Type*} {step : S → E → Option S}

def run (step : S → E → Option S) (s : S) : List E → Option S
  | [] => some s
  | e :: rest => (step s e).bind fun t => run step t rest

/-- A state that the run passes through, its first and its last included. -/
def Reached (step : S → E → Option S) (s : S) (events : List E) (t : S) : Prop :=
  ∃ done rest, events = done ++ rest ∧ run step s done = some t

/-- Every step of the run meets a condition on its event and the state before it. -/
def Along (step : S → E → Option S) (C : S → E → Prop) (s : S) (events : List E) : Prop :=
  ∀ done e rest t, events = done ++ e :: rest → run step s done = some t → C t e

theorem run_cons (s : S) (e : E) (rest : List E) :
    run step s (e :: rest) = (step s e).bind fun t => run step t rest := rfl

theorem run_cons_of_step {s t : S} {e : E} (h : step s e = some t) (rest : List E) :
    run step s (e :: rest) = run step t rest := by
  rw [run_cons, h, Option.bind_some]

/-- The first step of a run that goes through. -/
theorem exists_step_of_run {s last : S} {e : E} {rest : List E}
    (h : run step s (e :: rest) = some last) :
    ∃ t, step s e = some t ∧ run step t rest = some last := by
  rw [run_cons] at h
  exact Option.bind_eq_some_iff.mp h

theorem run_append {s t u : S} {done rest : List E} (hdone : run step s done = some t)
    (hrest : run step t rest = some u) : run step s (done ++ rest) = some u := by
  induction done generalizing s with
  | nil =>
    rw [List.nil_append, Option.some.inj hdone]
    exact hrest
  | cons e done ih =>
    obtain ⟨v, hv, hdone⟩ := exists_step_of_run hdone
    rw [List.cons_append, run_cons_of_step hv]
    exact ih hdone

/-- The last step of a run that goes through. -/
theorem run_concat_eq_some_iff {s last : S} {done : List E} {e : E} :
    run step s (done ++ [e]) = some last ↔
      ∃ t, run step s done = some t ∧ step t e = some last := by
  induction done generalizing s with
  | nil =>
    rw [List.nil_append, run_cons]
    constructor
    · intro h
      obtain ⟨t, ht, hlast⟩ := Option.bind_eq_some_iff.mp h
      exact ⟨s, rfl, ht.trans hlast⟩
    · intro h
      obtain ⟨t, ht, hlast⟩ := h
      rw [Option.some.inj ht, hlast]
      rfl
  | cons e' done ih =>
    rw [List.cons_append, run_cons, run_cons]
    cases hstep : step s e' with
    | none =>
      refine iff_of_false nofun ?_
      intro h
      obtain ⟨t, ht, -⟩ := h
      exact nomatch ht
    | some t => exact ih

theorem reached_start (s : S) (events : List E) : Reached step s events s :=
  ⟨[], events, rfl, rfl⟩

theorem reached_last {s t : S} {events : List E} (h : run step s events = some t) :
    Reached step s events t :=
  ⟨events, [], (List.append_nil events).symm, h⟩

theorem Reached.cons {s t u : S} {e : E} {rest : List E} (hstep : step s e = some t)
    (h : Reached step t rest u) : Reached step s (e :: rest) u := by
  obtain ⟨done, todo, hsplit, hrun⟩ := h
  refine ⟨e :: done, todo, ?_, ?_⟩
  · rw [hsplit, List.cons_append]
  · rw [run_cons_of_step hstep]
    exact hrun

theorem along_nil (C : S → E → Prop) (s : S) : Along step C s [] := by
  intro done e rest t hsplit
  have hlength := congrArg List.length hsplit
  simp only [List.length_nil, List.length_append, List.length_cons] at hlength
  omega

theorem along_cons_iff {C : S → E → Prop} {s t : S} {e : E} {rest : List E}
    (hstep : step s e = some t) :
    Along step C s (e :: rest) ↔ C s e ∧ Along step C t rest := by
  constructor
  · intro h
    refine ⟨h [] e rest s rfl rfl, ?_⟩
    intro done e' todo u hsplit hrun
    apply h (e :: done) e' todo u
    · rw [hsplit, List.cons_append]
    · rw [run_cons_of_step hstep]
      exact hrun
  · intro h done e' todo u hsplit hrun
    cases done with
    | nil =>
      obtain ⟨he, -⟩ := List.cons.inj hsplit
      rw [← he, ← Option.some.inj hrun]
      exact h.1
    | cons e₁ done =>
      rw [List.cons_append] at hsplit
      obtain ⟨he, hrest⟩ := List.cons.inj hsplit
      subst he
      rw [run_cons_of_step hstep] at hrun
      exact h.2 done e' todo u hrest hrun

/-- A condition on the events alone is one on their list. -/
theorem along_iff_forall_mem {C : E → Prop} {s last : S} {events : List E}
    (hrun : run step s events = some last) :
    Along step (fun _ e => C e) s events ↔ ∀ e ∈ events, C e := by
  induction events generalizing s with
  | nil => exact iff_of_true (along_nil _ s) nofun
  | cons e rest ih =>
    obtain ⟨t, ht, hrest⟩ := exists_step_of_run hrun
    rw [along_cons_iff ht, ih hrest, List.forall_mem_cons]

/-- What the steps of a run preserve under a condition holds in every state reached. -/
theorem invariant_of_along {I : S → Prop} {C : S → E → Prop}
    (hstep : ∀ s e t, I s → C s e → step s e = some t → I t) {s : S} {events : List E}
    (hs : I s) (halong : Along step C s events) {t : S} (h : Reached step s events t) :
    I t := by
  obtain ⟨done, rest, hsplit, hrun⟩ := h
  induction done generalizing s events with
  | nil =>
    rw [← Option.some.inj hrun]
    exact hs
  | cons e done ih =>
    obtain ⟨u, hu, hrun⟩ := exists_step_of_run hrun
    rw [List.cons_append] at hsplit
    rw [hsplit, along_cons_iff hu] at halong
    exact ih (hstep s e u hs halong.1 hu) halong.2 rfl hrun

/-- What every step preserves holds in every state reached. -/
theorem invariant_of_reached {I : S → Prop}
    (hstep : ∀ s e t, I s → step s e = some t → I t) {s : S} {events : List E}
    (hs : I s) {t : S} (h : Reached step s events t) : I t := by
  refine invariant_of_along (C := fun _ _ => True) ?_ hs ?_ h
  · intro s e t hs _
    exact hstep s e t hs
  · intro done e rest t _ _
    trivial

/-- A condition on the steps is exact for a property of states when the steps
that meet it keep an invariant with the property and every other step loses the
property. -/
theorem forall_reached_iff_along {I Good : S → Prop} {C : S → E → Prop}
    (hstep : ∀ s e t, I s → C s e → step s e = some t → I t)
    (hgood : ∀ s, I s → Good s)
    (hbad : ∀ s e t, I s → ¬ C s e → step s e = some t → ¬ Good t)
    {s last : S} {events : List E} (hs : I s) (hrun : run step s events = some last) :
    (∀ t, Reached step s events t → Good t) ↔ Along step C s events := by
  constructor
  · intro h
    induction events generalizing s with
    | nil => exact along_nil C s
    | cons e rest ih =>
      obtain ⟨t, ht, hrest⟩ := exists_step_of_run hrun
      have hC : C s e := by
        by_contra hnot
        exact hbad s e t hs hnot ht (h t ((reached_start t rest).cons ht))
      rw [along_cons_iff ht]
      exact ⟨hC, ih (hstep s e t hs hC ht) hrest fun u hu => h u (hu.cons ht)⟩
  · intro halong t ht
    exact hgood t (invariant_of_along hstep hs halong ht)

end SqlServerMcp.Runs
