import Mathlib.Data.List.Induction
import SqlServerMcp.Runs

/-!
Histories of calls some of which write a value. What is read after a history is
the value of the last write in it.
-/
namespace SqlServerMcp.LastWrite

variable {C W S X : Type*}

/-- The value of the last call that writes one. -/
def latest (write : C → Option W) (calls : List C) : Option W :=
  calls.reverse.findSome? write

variable {write : C → Option W}

theorem latest_append (calls calls' : List C) :
    latest write (calls ++ calls') = (latest write calls').or (latest write calls) := by
  rw [latest, latest, latest, List.reverse_append, List.findSome?_append]

theorem latest_concat (calls : List C) (c : C) :
    latest write (calls ++ [c]) = (write c).or (latest write calls) := by
  have hone : latest write [c] = write c := by simp [latest]
  rw [latest_append, hone]

theorem latest_eq_none_iff (calls : List C) :
    latest write calls = none ↔ ∀ c ∈ calls, write c = none := by
  simp [latest]

theorem latest_eq_some_iff (calls : List C) (w : W) :
    latest write calls = some w ↔
      ∃ before c after, calls = before ++ c :: after ∧ write c = some w ∧
        ∀ d ∈ after, write d = none := by
  rw [latest, List.findSome?_eq_some_iff]
  constructor
  · intro h
    obtain ⟨l₁, c, l₂, hsplit, hc, hnone⟩ := h
    refine ⟨l₂.reverse, c, l₁.reverse, ?_, hc, ?_⟩
    · rw [← List.reverse_reverse calls, hsplit]
      simp
    · intro d hd
      exact hnone d (List.mem_reverse.mp hd)
  · intro h
    obtain ⟨before, c, after, hsplit, hc, hnone⟩ := h
    refine ⟨after.reverse, c, before.reverse, ?_, hc, ?_⟩
    · rw [hsplit]
      simp
    · intro d hd
      exact hnone d (List.mem_reverse.mp hd)

theorem exists_mem_of_latest {calls : List C} {w : W} (h : latest write calls = some w) :
    ∃ c ∈ calls, write c = some w := by
  obtain ⟨before, c, after, hsplit, hc, -⟩ := (latest_eq_some_iff calls w).mp h
  refine ⟨c, ?_, hc⟩
  rw [hsplit]
  exact List.mem_append_right _ List.mem_cons_self

/-- A view of the state that every write replaces and every other call leaves
shows the last write. -/
theorem view_foldl {apply : S → C → S} (view : S → X) (shown : W → X)
    (hstep : ∀ s c, view (apply s c) = ((write c).map shown).getD (view s))
    (s : S) (calls : List C) :
    view (calls.foldl apply s) = ((latest write calls).map shown).getD (view s) := by
  induction calls using List.reverseRecOn with
  | nil => rfl
  | append_singleton calls c ih =>
    rw [List.foldl_concat, latest_concat, hstep, ih]
    cases write c <;> rfl

/-- The same for runs in which some calls may not happen. -/
theorem view_run {step : S → C → Option S} (view : S → X) (shown : W → X)
    (hstep : ∀ s c t, step s c = some t → view t = ((write c).map shown).getD (view s))
    {s last : S} {calls : List C} (h : Runs.run step s calls = some last) :
    view last = ((latest write calls).map shown).getD (view s) := by
  induction calls generalizing s with
  | nil =>
    rw [Option.some.inj h]
    rfl
  | cons c rest ih =>
    obtain ⟨t, ht, hrest⟩ := Runs.exists_step_of_run h
    have hone : latest write [c] = write c := by simp [latest]
    rw [ih hrest, hstep s c t ht, ← List.singleton_append, latest_append, hone]
    cases latest write rest <;> rfl

section Visits

variable {apply : S → C → S}

/-- The calls of a history, each with the state that it finds. -/
def visits (apply : S → C → S) (s : S) : List C → List (S × C)
  | [] => []
  | c :: rest => (s, c) :: visits apply (apply s c) rest

theorem visits_append (s : S) (calls calls' : List C) :
    visits apply s (calls ++ calls') =
      visits apply s calls ++ visits apply (calls.foldl apply s) calls' := by
  induction calls generalizing s with
  | nil => rfl
  | cons c rest ih => rw [List.cons_append, visits, ih, visits, List.cons_append, List.foldl_cons]

theorem visits_snd (s : S) (calls : List C) : (visits apply s calls).map Prod.snd = calls := by
  induction calls generalizing s with
  | nil => rfl
  | cons c rest ih => rw [visits, List.map_cons, ih]

/-- The same where it depends on the state what a call writes. -/
theorem view_visits {write : S × C → Option W} (view : S → X) (shown : W → X)
    (hstep : ∀ s c, view (apply s c) = ((write (s, c)).map shown).getD (view s))
    (s : S) (calls : List C) :
    view (calls.foldl apply s) =
      ((latest write (visits apply s calls)).map shown).getD (view s) := by
  induction calls generalizing s with
  | nil => rfl
  | cons c rest ih =>
    have hone : latest write [(s, c)] = write (s, c) := by simp [latest]
    rw [List.foldl_cons, ih, hstep, visits, ← List.singleton_append, latest_append, hone]
    cases latest write (visits apply (apply s c) rest) <;> rfl

end Visits

section Held

variable {V : Type*} {write : C → Option (Option V)}

/-- The value in a place that a call may set, clear or leave, empty at first. -/
def held (write : C → Option (Option V)) (calls : List C) : Option V :=
  (latest write calls).getD none

theorem held_eq_some_iff (calls : List C) (v : V) :
    held write calls = some v ↔ latest write calls = some (some v) := by
  cases h : latest write calls with
  | none => simp [held, h]
  | some w => simp [held, h]

/-- A call that leaves the place may be skipped. -/
theorem held_skip (before after : List C) {c : C} (h : write c = none) :
    held write (before ++ c :: after) = held write (before ++ after) := by
  have hone : latest write [c] = none := by simp [latest, h]
  have hrest : latest write (c :: after) = latest write after := by
    rw [← List.singleton_append, latest_append, hone, Option.or_none]
  rw [held, held, latest_append, latest_append, hrest]

theorem held_concat_of_clear (calls : List C) {c : C} (h : write c = some none) :
    held write (calls ++ [c]) = none := by
  rw [held, latest_concat, h]
  rfl

/-- Behind a history that leaves the place empty, only what comes later counts. -/
theorem held_append_of_none {calls : List C} (h : held write calls = none) (later : List C) :
    held write (calls ++ later) = held write later := by
  rw [held, held, latest_append]
  cases latest write later with
  | none => exact h
  | some w => rfl

/-- The place is empty when every value set was cleared afterwards. -/
theorem held_eq_none_iff (calls : List C) :
    held write calls = none ↔
      ∀ before c after v, calls = before ++ c :: after → write c = some (some v) →
        ∃ d ∈ after, write d = some none := by
  constructor
  · intro hnone before c after v hsplit hc
    have hlatest : ∃ w, latest write (c :: after) = some w := by
      rw [← Option.ne_none_iff_exists']
      intro hempty
      rw [(latest_eq_none_iff _).mp hempty c List.mem_cons_self] at hc
      contradiction
    obtain ⟨w, hw⟩ := hlatest
    have hcalls : latest write calls = some w := by
      rw [hsplit, latest_append, hw]
      rfl
    obtain ⟨d, hd, hwrite⟩ := exists_mem_of_latest hw
    rw [held, hcalls] at hnone
    have hwnone : w = none := hnone
    rw [hwnone] at hwrite
    rcases List.mem_cons.mp hd with heq | hafter
    · rw [heq, hc] at hwrite
      have hv : some v = none := Option.some.inj hwrite
      contradiction
    · exact ⟨d, hafter, hwrite⟩
  · intro hcleared
    by_contra hheld
    obtain ⟨v, hv⟩ := Option.ne_none_iff_exists'.mp hheld
    obtain ⟨before, c, after, hsplit, hc, hnone⟩ :=
      (latest_eq_some_iff calls _).mp ((held_eq_some_iff calls v).mp hv)
    obtain ⟨d, hd, hclear⟩ := hcleared before c after v hsplit hc
    rw [hnone d hd] at hclear
    contradiction

/-- The place is empty after two histories when it is after the second, and the
values that the first one set were cleared in one of them. -/
theorem held_append_eq_none_iff (calls later : List C) :
    held write (calls ++ later) = none ↔
      (∀ before c after v, calls = before ++ c :: after → write c = some (some v) →
        ∃ d ∈ after ++ later, write d = some none) ∧ held write later = none := by
  constructor
  · intro h
    constructor
    · intro before c after v hsplit hc
      apply (held_eq_none_iff _).mp h before c (after ++ later) v _ hc
      rw [hsplit, List.append_assoc, List.cons_append]
    · rw [held, latest_append] at h
      rw [held]
      cases hlatest : latest write later with
      | none => rfl
      | some w =>
        rw [hlatest] at h
        exact h
  · intro h
    obtain ⟨hcleared, hlater⟩ := h
    rw [held_eq_none_iff]
    intro before c after v hsplit hc
    rcases List.append_eq_append_iff.mp hsplit with ⟨mid, -, hmid⟩ | ⟨mid, hmid, hrest⟩
    · exact (held_eq_none_iff _).mp hlater mid c after v hmid hc
    · cases mid with
      | nil =>
        rw [List.nil_append] at hrest
        exact (held_eq_none_iff _).mp hlater [] c after v hrest.symm hc
      | cons c' mid =>
        rw [List.cons_append] at hrest
        obtain ⟨hc', hafter⟩ := List.cons.inj hrest
        rw [hafter]
        exact hcleared before c mid v (hc' ▸ hmid) hc

end Held

end SqlServerMcp.LastWrite
