import Mathlib.Data.List.Basic
import SqlServerMcp.Runs

/-!
The circuit breaker around outbound calls. A call passes the breaker in one
critical section, runs, and reports its outcome in another one; between the two
the other calls take their own steps. Time is counted in nanoseconds on a clock
that does not run backwards.
-/
namespace SqlServerMcp.CircuitBreaker

open Runs

inductive State where
  | closed
  | opened
  | halfOpen
  deriving DecidableEq

structure Inner where
  state : State
  failureCount : UInt32
  openedAt : Option ℕ
  deriving DecidableEq

/-- The limits of a breaker; its state is kept apart. -/
structure Breaker where
  failureThreshold : UInt32
  resetTimeout : ℕ

namespace Inner

def new : Inner where
  state := .closed
  failureCount := 0
  openedAt := none

/-- The time since the breaker opened, as a call reads it. -/
def elapsed (inner : Inner) (now : ℕ) : ℕ :=
  (inner.openedAt.map fun t => now - t).getD 0

def onSuccess (inner : Inner) : Inner :=
  { inner with failureCount := 0, state := .closed }

end Inner

namespace Breaker

variable (b : Breaker)

/-- The first critical section of `execute`: the state it leaves, or `none` where
the call is refused. -/
def gate (inner : Inner) (now : ℕ) : Option Inner :=
  if inner.state = .opened then
    if inner.elapsed now < b.resetTimeout then none
    else some { inner with state := .halfOpen }
  else some inner

def onFailure (inner : Inner) (now : ℕ) : Inner :=
  let failed := { inner with failureCount := inner.failureCount + 1 }
  if failed.state = .halfOpen ∨ b.failureThreshold ≤ failed.failureCount then
    { failed with state := .opened, openedAt := some now }
  else failed

end Breaker

/-- A call that was admitted. It is a trial when the breaker was not closed. -/
structure Call where
  id : ℕ
  trial : Bool
  deriving DecidableEq

/-- A breaker in use: its state, the admitted calls that have not completed, the
time of the last step and the times at which the breaker went open. A call that fails
while the breaker is open already is no opening. -/
structure System where
  inner : Inner
  inFlight : List Call
  clock : ℕ
  openings : List ℕ
  deriving DecidableEq

/-- A call comes in, or an admitted one completes. -/
inductive Event where
  | call (id now : ℕ)
  | success (id now : ℕ)
  | failure (id now : ℕ)

namespace System

variable (s : System)

def new : System where
  inner := Inner.new
  inFlight := []
  clock := 0
  openings := []

def trials : List Call := s.inFlight.filter (·.trial)

/-- The calls in flight without one of them. -/
def others (id : ℕ) : List Call := s.inFlight.filter (·.id ≠ id)

def refuse (now : ℕ) : System := { s with clock := now }

/-- A call goes through and leaves the breaker as given. -/
def enter (id : ℕ) (inner : Inner) (now : ℕ) : System where
  inner := inner
  inFlight := ⟨id, inner.state = .halfOpen⟩ :: s.inFlight
  clock := now
  openings := s.openings

/-- A call completes and leaves the breaker as given. -/
def leave (id : ℕ) (inner : Inner) (now : ℕ) : System where
  inner := inner
  inFlight := s.others id
  clock := now
  openings :=
    if s.inner.state ≠ .opened ∧ inner.state = .opened then now :: s.openings else s.openings

/-- A call of this name may complete at this time. -/
def Completes (id now : ℕ) : Prop := s.clock ≤ now ∧ ∃ c ∈ s.inFlight, c.id = id

instance (id now : ℕ) : Decidable (s.Completes id now) :=
  inferInstanceAs (Decidable (_ ∧ _))

/-- A call of this name may come in at this time. -/
def ComesIn (id now : ℕ) : Prop := s.clock ≤ now ∧ ∀ c ∈ s.inFlight, c.id ≠ id

instance (id now : ℕ) : Decidable (s.ComesIn id now) :=
  inferInstanceAs (Decidable (_ ∧ _))

end System

def step (b : Breaker) (s : System) : Event → Option System
  | .call id now =>
    if s.ComesIn id now then
      match b.gate s.inner now with
      | none => some (s.refuse now)
      | some inner => some (s.enter id inner now)
    else none
  | .success id now =>
    if s.Completes id now then some (s.leave id s.inner.onSuccess now) else none
  | .failure id now =>
    if s.Completes id now then some (s.leave id (b.onFailure s.inner now) now) else none

section Steps

variable (b : Breaker)

theorem gate_of_not_opened {inner : Inner} (h : inner.state ≠ .opened) (now : ℕ) :
    b.gate inner now = some inner := by
  simp only [Breaker.gate, h, if_false]

theorem gate_of_opened {inner : Inner} (h : inner.state = .opened) (now : ℕ) :
    b.gate inner now =
      if inner.elapsed now < b.resetTimeout then none
      else some { inner with state := .halfOpen } := by
  simp only [Breaker.gate, h, if_true]

/-- A call that goes through leaves the breaker as it was, or half-open where it
was open for the reset timeout. -/
theorem gate_cases {inner inner' : Inner} {now : ℕ} (h : b.gate inner now = some inner') :
    inner.state ≠ .opened ∧ inner' = inner ∨
      inner.state = .opened ∧ b.resetTimeout ≤ inner.elapsed now ∧
        inner' = { inner with state := .halfOpen } := by
  by_cases hopen : inner.state = .opened
  · rw [gate_of_opened b hopen] at h
    by_cases helapsed : inner.elapsed now < b.resetTimeout
    · rw [if_pos helapsed] at h
      contradiction
    · rw [if_neg helapsed] at h
      exact Or.inr ⟨hopen, Nat.not_lt.mp helapsed, (Option.some.inj h).symm⟩
  · rw [gate_of_not_opened b hopen] at h
    exact Or.inl ⟨hopen, (Option.some.inj h).symm⟩

/-- A failure opens the breaker now, or leaves its state and the time of its
opening. -/
theorem onFailure_cases (inner : Inner) (now : ℕ) :
    (b.onFailure inner now).state = .opened ∧ (b.onFailure inner now).openedAt = some now ∨
      inner.state ≠ .halfOpen ∧ (b.onFailure inner now).state = inner.state ∧
        (b.onFailure inner now).openedAt = inner.openedAt := by
  by_cases h : inner.state = .halfOpen ∨ b.failureThreshold ≤ inner.failureCount + 1
  · left
    simp only [Breaker.onFailure, h, if_true, and_self]
  · right
    simp only [Breaker.onFailure, h, if_false, and_self, and_true]
    intro hhalf
    exact h (Or.inl hhalf)

variable {b}

/-- Everything a step can do. -/
theorem step_cases {s t : System} {e : Event} (h : step b s e = some t) :
    (∃ id now, e = .call id now ∧ s.ComesIn id now ∧
      (b.gate s.inner now = none ∧ t = s.refuse now ∨
        ∃ inner, b.gate s.inner now = some inner ∧ t = s.enter id inner now)) ∨
    (∃ id now, e = .success id now ∧ s.Completes id now ∧ t = s.leave id s.inner.onSuccess now) ∨
    (∃ id now, e = .failure id now ∧ s.Completes id now ∧
      t = s.leave id (b.onFailure s.inner now) now) := by
  cases e with
  | call id now =>
    left
    simp only [step] at h
    by_cases hin : s.ComesIn id now
    · rw [if_pos hin] at h
      refine ⟨id, now, rfl, hin, ?_⟩
      cases hgate : b.gate s.inner now with
      | none =>
        rw [hgate] at h
        exact Or.inl ⟨rfl, (Option.some.inj h).symm⟩
      | some inner =>
        rw [hgate] at h
        exact Or.inr ⟨inner, rfl, (Option.some.inj h).symm⟩
    · rw [if_neg hin] at h
      contradiction
  | success id now =>
    right; left
    simp only [step] at h
    by_cases hout : s.Completes id now
    · rw [if_pos hout] at h
      exact ⟨id, now, rfl, hout, (Option.some.inj h).symm⟩
    · rw [if_neg hout] at h
      contradiction
  | failure id now =>
    right; right
    simp only [step] at h
    by_cases hout : s.Completes id now
    · rw [if_pos hout] at h
      exact ⟨id, now, rfl, hout, (Option.some.inj h).symm⟩
    · rw [if_neg hout] at h
      contradiction

end Steps

section Openings

variable (b : Breaker)

/-- No call is let through before the reset timeout of an opening has passed. -/
def RefusesUntilReset (s : System) : Prop :=
  ∀ t ∈ s.openings, ∀ now, s.clock ≤ now → now < t + b.resetTimeout →
    b.gate s.inner now = none

/-- A success that is reported while the breaker is open comes after the reset
timeout. -/
def NoEarlySuccess (s : System) (e : Event) : Prop :=
  ∀ id now, e = .success id now → s.inner.state = .opened →
    ∀ t ∈ s.openings, t + b.resetTimeout ≤ now

/-- An open breaker knows when it went open last, and one that is not open is
past the reset timeout of every opening. -/
structure Dated (s : System) : Prop where
  past : ∀ t ∈ s.openings, t ≤ s.clock
  known : s.inner.state = .opened →
    ∃ since, s.inner.openedAt = some since ∧ ∀ t ∈ s.openings, t ≤ since
  passed : s.inner.state ≠ .opened → ∀ t ∈ s.openings, t + b.resetTimeout ≤ s.clock

theorem mem_openings_leave {s : System} {id now t : ℕ} {inner : Inner} :
    t ∈ (s.leave id inner now).openings ↔
      t ∈ s.openings ∨ t = now ∧ s.inner.state ≠ .opened ∧ inner.state = .opened := by
  by_cases h : s.inner.state ≠ .opened ∧ inner.state = .opened
  · have hopenings : (s.leave id inner now).openings = now :: s.openings := if_pos h
    rw [hopenings, List.mem_cons]
    constructor
    · intro ht
      rcases ht with hnow | hold
      · exact Or.inr ⟨hnow, h⟩
      · exact Or.inl hold
    · intro ht
      rcases ht with hold | ⟨hnow, -⟩
      · exact Or.inr hold
      · exact Or.inl hnow
  · have hopenings : (s.leave id inner now).openings = s.openings := if_neg h
    rw [hopenings]
    constructor
    · exact Or.inl
    · intro ht
      rcases ht with hold | ⟨-, hopens⟩
      · exact hold
      · exact absurd hopens h

theorem dated_new : Dated b System.new := by
  constructor
  · intro t ht
    contradiction
  · intro h
    contradiction
  · intro _ t ht
    contradiction

theorem elapsed_of_openedAt {inner : Inner} {since : ℕ} (h : inner.openedAt = some since)
    (now : ℕ) : inner.elapsed now = now - since := by
  simp only [Inner.elapsed, h, Option.map_some, Option.getD_some]

variable {b}

theorem Dated.refuses {s : System} (h : Dated b s) : RefusesUntilReset b s := by
  intro t ht now hclock hearly
  have hpast := h.past t ht
  by_cases hopen : s.inner.state = .opened
  · obtain ⟨since, hsince, hlast⟩ := h.known hopen
    have hle := hlast t ht
    have hshort : s.inner.elapsed now < b.resetTimeout := by
      rw [elapsed_of_openedAt hsince]
      omega
    rw [gate_of_opened b hopen, if_pos hshort]
  · have hpassed := h.passed hopen t ht
    omega

theorem Dated.refuse {s : System} (h : Dated b s) {now : ℕ} (hclock : s.clock ≤ now) :
    Dated b (s.refuse now) := by
  constructor
  · intro t ht
    exact Nat.le_trans (h.past t ht) hclock
  · exact h.known
  · intro hopen t ht
    exact Nat.le_trans (h.passed hopen t ht) hclock

theorem Dated.enter {s : System} (h : Dated b s) {id now : ℕ} {inner : Inner}
    (hclock : s.clock ≤ now) (hgate : b.gate s.inner now = some inner) :
    Dated b (s.enter id inner now) := by
  have hpast : ∀ t ∈ s.openings, t ≤ now := fun t ht => Nat.le_trans (h.past t ht) hclock
  rcases gate_cases b hgate with ⟨hopen, heq⟩ | ⟨hopen, hlong, heq⟩
  · subst heq
    refine ⟨hpast, fun hstill => absurd hstill hopen, ?_⟩
    intro _ t ht
    exact Nat.le_trans (h.passed hopen t ht) hclock
  · obtain ⟨since, hsince, hlast⟩ := h.known hopen
    rw [elapsed_of_openedAt hsince] at hlong
    subst heq
    refine ⟨hpast, fun hstill => State.noConfusion hstill, ?_⟩
    intro _ t ht
    have hle := hlast t ht
    have htnow := hpast t ht
    show t + b.resetTimeout ≤ now
    omega

theorem Dated.success {s : System} (h : Dated b s) {id now : ℕ} (hclock : s.clock ≤ now)
    (hlate : s.inner.state = .opened → ∀ t ∈ s.openings, t + b.resetTimeout ≤ now) :
    Dated b (s.leave id s.inner.onSuccess now) := by
  have hold : ∀ t ∈ (s.leave id s.inner.onSuccess now).openings, t ∈ s.openings := by
    intro t ht
    rcases mem_openings_leave.mp ht with hmem | ⟨-, -, hopen⟩
    · exact hmem
    · exact State.noConfusion hopen
  constructor
  · intro t ht
    exact Nat.le_trans (h.past t (hold t ht)) hclock
  · intro hopen
    exact State.noConfusion hopen
  · intro _ t ht
    by_cases hopen : s.inner.state = .opened
    · exact hlate hopen t (hold t ht)
    · exact Nat.le_trans (h.passed hopen t (hold t ht)) hclock

theorem Dated.failure {s : System} (h : Dated b s) {id now : ℕ} (hclock : s.clock ≤ now) :
    Dated b (s.leave id (b.onFailure s.inner now) now) := by
  have hpast : ∀ t ∈ (s.leave id (b.onFailure s.inner now) now).openings, t ≤ now := by
    intro t ht
    rcases mem_openings_leave.mp ht with hmem | ⟨hnow, -⟩
    · exact Nat.le_trans (h.past t hmem) hclock
    · exact Nat.le_of_eq hnow
  rcases onFailure_cases b s.inner now with ⟨hopen, hsince⟩ | ⟨-, hstate, hsince⟩
  · refine ⟨hpast, fun _ => ⟨now, hsince, hpast⟩, ?_⟩
    intro hnot
    exact absurd hopen hnot
  · have hold : ∀ t ∈ (s.leave id (b.onFailure s.inner now) now).openings, t ∈ s.openings := by
      intro t ht
      rcases mem_openings_leave.mp ht with hmem | ⟨-, hnot, hopen⟩
      · exact hmem
      · rw [hstate] at hopen
        exact absurd hopen hnot
    refine ⟨hpast, ?_, ?_⟩
    · intro hopen
      obtain ⟨since, hat, hlast⟩ := h.known (hstate ▸ hopen)
      exact ⟨since, hsince.trans hat, fun t ht => hlast t (hold t ht)⟩
    · intro hnot t ht
      exact Nat.le_trans (h.passed (fun hopen => hnot (hstate.trans hopen)) t (hold t ht)) hclock

theorem Dated.step {s t : System} {e : Event} (h : Dated b s) (hlate : NoEarlySuccess b s e)
    (hstep : step b s e = some t) : Dated b t := by
  rcases step_cases hstep with ⟨id, now, -, hin, hcall⟩ | ⟨id, now, he, hout, ht⟩ |
    ⟨id, now, -, hout, ht⟩
  · rcases hcall with ⟨-, ht⟩ | ⟨inner, hgate, ht⟩
    · rw [ht]
      exact h.refuse hin.1
    · rw [ht]
      exact h.enter hin.1 hgate
  · rw [ht]
    exact h.success hout.1 (hlate id now he)
  · rw [ht]
    exact h.failure hout.1

/-- After a success that comes too early the next call goes through. -/
theorem not_refuses_of_early_success {s t : System} {e : Event} (h : ¬ NoEarlySuccess b s e)
    (hstep : step b s e = some t) : ¬ RefusesUntilReset b t := by
  intro hrefuses
  apply h
  intro id now he hopen at' hat
  by_contra hearly
  subst he
  rcases step_cases hstep with ⟨_, _, he, -⟩ | ⟨id', now', he, -, ht⟩ | ⟨_, _, he, -⟩
  · exact Event.noConfusion he
  · obtain ⟨hid, hnow⟩ := Event.success.inj he
    subst ht hid hnow
    have hmem : at' ∈ (s.leave id s.inner.onSuccess now).openings :=
      mem_openings_leave.mpr (Or.inl hat)
    have hnone := hrefuses at' hmem now (Nat.le_refl now) (Nat.not_le.mp hearly)
    rw [gate_of_not_opened b State.noConfusion] at hnone
    contradiction
  · exact Event.noConfusion he

/-- In a run every call that comes before the reset timeout of an opening is
refused exactly when no success is reported to the open breaker that early. -/
theorem refusesUntilReset_iff (b : Breaker) (events : List Event) (last : System)
    (hrun : run (step b) System.new events = some last) :
    (∀ s, Reached (step b) System.new events s → RefusesUntilReset b s) ↔
      Along (step b) (NoEarlySuccess b) System.new events := by
  apply forall_reached_iff_along (I := Dated b)
  · intro s e t h hlate hstep
    exact h.step hlate hstep
  · intro s h
    exact h.refuses
  · intro s e t _ hnot hstep
    exact not_refuses_of_early_success hnot hstep
  · exact dated_new b
  · exact hrun

/-- A breaker that opens at its first failure, for ten nanoseconds. -/
def sensitive : Breaker := ⟨1, 10⟩

/-- Two calls overlap. The first one fails at the time 1, the other one succeeds
at the time 2, and a third call comes in at the time 3. -/
def lateSuccess : List Event :=
  [.call 1 0, .call 2 0, .failure 1 1, .success 2 2, .call 3 3]

/-- The state after those events. -/
def lateSuccessEnd : System where
  inner := ⟨.closed, 0, some 1⟩
  inFlight := [⟨3, false⟩]
  clock := 3
  openings := [1]

/-- The two calls overlap in the same way, and the second one fails as well. -/
def lateFailure : List Event :=
  [.call 1 0, .call 2 0, .failure 1 1, .failure 2 2, .call 3 3, .call 4 12]

/-- The state after those events: the last call is a trial. -/
def lateFailureEnd : System where
  inner := ⟨.halfOpen, 2, some 2⟩
  inFlight := [⟨4, true⟩]
  clock := 12
  openings := [1]

theorem refusesUntilReset_iff_lateFailure :
    (∀ s, Reached (step sensitive) System.new lateFailure s → RefusesUntilReset sensitive s) ↔
      Along (step sensitive) (NoEarlySuccess sensitive) System.new lateFailure :=
  refusesUntilReset_iff sensitive lateFailure lateFailureEnd (by decide)

/-- A call that was admitted before the breaker opened closes it again at once. -/
theorem not_refusesUntilReset_lateSuccess :
    ¬ ∀ (b : Breaker) (events : List Event) (last : System),
      run (step b) System.new events = some last →
        ∀ s, Reached (step b) System.new events s → RefusesUntilReset b s := by
  intro h
  have hrun : run (step sensitive) System.new lateSuccess = some lateSuccessEnd := by decide
  have hrefuses := h sensitive lateSuccess lateSuccessEnd hrun lateSuccessEnd (reached_last hrun)
  have hnone := hrefuses 1 (by decide) 3 (by decide) (by decide)
  revert hnone
  decide

end Openings

section Trials

variable (b : Breaker)

/-- A call that comes while the breaker is half-open is refused. -/
def RefusesHalfOpen (s : System) (e : Event) : Prop :=
  ∀ id now, e = .call id now → s.inner.state = .halfOpen → b.gate s.inner now = none

/-- At most one trial is in flight at any time, and no call goes through while
the breaker is half-open. -/
def OneTrial (events : List Event) : Prop :=
  (∀ s, Reached (step b) System.new events s → s.trials.length ≤ 1) ∧
    Along (step b) (RefusesHalfOpen b) System.new events

/-- A call that comes during a trial finds the breaker closed, or open for less
than the reset timeout. -/
def ClearOfTrials (s : System) (e : Event) : Prop :=
  ∀ id now, e = .call id now → s.trials ≠ [] →
    s.inner.state ≠ .halfOpen ∧ (s.inner.state = .opened → s.inner.elapsed now < b.resetTimeout)

/-- A half-open breaker has let a trial through that is still in flight. -/
def Tried (s : System) : Prop := s.inner.state = .halfOpen → s.trials ≠ []

theorem trials_enter (s : System) (id now : ℕ) (inner : Inner) :
    (s.enter id inner now).trials =
      if inner.state = .halfOpen then ⟨id, true⟩ :: s.trials else s.trials := by
  by_cases h : inner.state = .halfOpen <;> simp [System.trials, System.enter, h]

theorem length_trials_leave (s : System) (id now : ℕ) (inner : Inner) :
    (s.leave id inner now).trials.length ≤ s.trials.length := by
  apply List.Sublist.length_le
  exact List.filter_sublist.filter _

variable {b}

theorem Tried.step {s t : System} {e : Event} (h : Tried s) (hstep : step b s e = some t) :
    Tried t := by
  rcases step_cases hstep with ⟨id, now, -, -, hcall⟩ | ⟨id, now, -, -, ht⟩ |
    ⟨id, now, -, -, ht⟩
  · rcases hcall with ⟨-, ht⟩ | ⟨inner, -, ht⟩
    · rw [ht]
      exact h
    · intro hhalf
      rw [ht] at hhalf ⊢
      have hinner : inner.state = .halfOpen := hhalf
      rw [trials_enter, if_pos hinner]
      exact List.cons_ne_nil _ _
  · intro hhalf
    rw [ht] at hhalf
    exact State.noConfusion hhalf
  · intro hhalf
    rw [ht] at hhalf
    have hstate : (b.onFailure s.inner now).state = .halfOpen := hhalf
    rcases onFailure_cases b s.inner now with ⟨hopen, -⟩ | ⟨hnot, hsame, -⟩
    · rw [hopen] at hstate
      contradiction
    · exact absurd (hsame ▸ hstate) hnot

/-- A call that is clear of trials goes through as a trial only when no other
one is in flight. -/
theorem trials_step {s t : System} {e : Event} (hone : s.trials.length ≤ 1)
    (hclear : ClearOfTrials b s e) (hstep : step b s e = some t) : t.trials.length ≤ 1 := by
  rcases step_cases hstep with ⟨id, now, he, -, hcall⟩ | ⟨id, now, -, -, ht⟩ |
    ⟨id, now, -, -, ht⟩
  · rcases hcall with ⟨-, ht⟩ | ⟨inner, hgate, ht⟩
    · rw [ht]
      exact hone
    · rw [ht, trials_enter]
      by_cases hhalf : inner.state = .halfOpen
      · rw [if_pos hhalf]
        by_cases htrials : s.trials = []
        · rw [htrials]
          exact Nat.le_refl 1
        · obtain ⟨hnot, hshort⟩ := hclear id now he htrials
          rcases gate_cases b hgate with ⟨-, hsame⟩ | ⟨hopen, hlong, -⟩
          · exact absurd (hsame ▸ hhalf) hnot
          · have := hshort hopen
            omega
      · rw [if_neg hhalf]
        exact hone
  · rw [ht]
    exact Nat.le_trans (length_trials_leave s id now _) hone
  · rw [ht]
    exact Nat.le_trans (length_trials_leave s id now _) hone

/-- A call that comes in the way of a trial becomes a second one. -/
theorem two_trials_of_not_clear {s t : System} {e : Event} (h : ¬ ClearOfTrials b s e)
    (hstep : step b s e = some t) : ¬ t.trials.length ≤ 1 := by
  intro hone
  apply h
  intro id now he htrials
  have hnone : ∀ inner, b.gate s.inner now = some inner → inner.state ≠ .halfOpen := by
    intro inner hgate hhalf
    rcases step_cases hstep with ⟨id', now', he', -, hcall⟩ | ⟨_, _, he', -⟩ | ⟨_, _, he', -⟩
    · rw [he] at he'
      obtain ⟨hid, hnow⟩ := Event.call.inj he'
      subst hid hnow
      rcases hcall with ⟨hrefused, -⟩ | ⟨inner', hgate', ht⟩
      · rw [hrefused] at hgate
        contradiction
      · rw [hgate] at hgate'
        rw [← Option.some.inj hgate'] at ht
        rw [ht, trials_enter, if_pos hhalf, List.length_cons] at hone
        have hlength := List.length_pos_iff.mpr htrials
        omega
    · rw [he] at he'
      exact Event.noConfusion he'
    · rw [he] at he'
      exact Event.noConfusion he'
  constructor
  · intro hhalf
    have hnot : s.inner.state ≠ .opened := by
      rw [hhalf]
      exact State.noConfusion
    exact hnone s.inner (gate_of_not_opened b hnot now) hhalf
  · intro hopen
    by_contra hlong
    have hgate := gate_of_opened b hopen now
    rw [if_neg hlong] at hgate
    exact hnone _ hgate rfl

/-- In a run at most one trial is in flight at any time exactly when no call
comes while the breaker is half-open, or at the end of its reset timeout with a
trial still in flight. -/
theorem oneTrial_iff (b : Breaker) (events : List Event) (last : System)
    (hrun : run (step b) System.new events = some last) :
    OneTrial b events ↔ Along (step b) (ClearOfTrials b) System.new events := by
  have hexact : (∀ s, Reached (step b) System.new events s → s.trials.length ≤ 1) ↔
      Along (step b) (ClearOfTrials b) System.new events := by
    apply forall_reached_iff_along (I := fun s => Tried s ∧ s.trials.length ≤ 1)
    · intro s e t h hclear hstep
      exact ⟨h.1.step hstep, trials_step h.2 hclear hstep⟩
    · intro s h
      exact h.2
    · intro s e t _ hnot hstep
      exact two_trials_of_not_clear hnot hstep
    · exact ⟨fun h => State.noConfusion h, Nat.zero_le 1⟩
    · exact hrun
  constructor
  · intro h
    exact hexact.mp h.1
  · intro h
    refine ⟨hexact.mpr h, ?_⟩
    intro done e rest s hsplit hdone id now he hhalf
    have htried : Tried s := by
      refine invariant_of_reached ?_ ?_ ⟨done, e :: rest, hsplit, hdone⟩
      · intro s e t htried hstep
        exact htried.step hstep
      · intro hnew
        exact State.noConfusion hnew
    exact absurd hhalf (h done e rest s hsplit hdone id now he (htried hhalf)).1

theorem oneTrial_iff_lateFailure :
    OneTrial sensitive lateFailure ↔
      Along (step sensitive) (ClearOfTrials sensitive) System.new lateFailure :=
  oneTrial_iff sensitive lateFailure lateFailureEnd (by decide)

/-- The breaker opens at the time 1. Two calls come at the end of its reset
timeout, before either has completed. -/
def doubleTrial : List Event :=
  [.call 1 0, .failure 1 1, .call 2 11, .call 3 12]

def doubleTrialEnd : System where
  inner := ⟨.halfOpen, 1, some 1⟩
  inFlight := [⟨3, true⟩, ⟨2, true⟩]
  clock := 12
  openings := [1]

/-- Both calls are let through as trials. -/
theorem not_oneTrial_doubleTrial :
    ¬ ∀ (b : Breaker) (events : List Event) (last : System),
      run (step b) System.new events = some last → OneTrial b events := by
  intro h
  have hrun : run (step sensitive) System.new doubleTrial = some doubleTrialEnd := by decide
  have hone := (h sensitive doubleTrial doubleTrialEnd hrun).1 doubleTrialEnd (reached_last hrun)
  revert hone
  decide

end Trials

end SqlServerMcp.CircuitBreaker
