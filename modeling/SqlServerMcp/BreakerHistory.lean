import Mathlib.Algebra.Group.Nat.Defs
import SqlServerMcp.CircuitBreaker

/-!
The circuit breaker under calls that do not overlap. Its state, its counter and the
time of its opening then say no more than the failures since the last success: what a
call meets is decided by these alone.
-/
namespace SqlServerMcp.BreakerHistory

open Runs CircuitBreaker

inductive CircuitBreakerError (E : Type*) where
  | opened
  | inner (error : E)

/-- What a call gives, the breaker that it leaves, and whether the wrapped call ran. -/
structure Executed (T E : Type*) where
  result : Except (CircuitBreakerError E) T
  inner : Inner
  ran : Bool

/-- A call that comes in at one time and would complete at another. -/
def execute {T E : Type*} (b : Breaker) (inner : Inner) (start finish : ℕ)
    (outcome : Except E T) : Executed T E :=
  match b.gate inner start with
  | none => ⟨.error .opened, inner, false⟩
  | some admitted =>
    match outcome with
    | .ok value => ⟨.ok value, admitted.onSuccess, true⟩
    | .error err => ⟨.error (.inner err), b.onFailure admitted finish, true⟩

/-- The wrapped call's own result. -/
def ownResult {T E : Type*} (outcome : Except E T) : Except (CircuitBreakerError E) T :=
  outcome.mapError .inner

/-- One call of a sequence, with values and errors of its own. -/
structure Attempt where
  T : Type
  E : Type
  start : ℕ
  finish : ℕ
  outcome : Except E T

def Attempt.failed (a : Attempt) : Bool := !a.outcome.isOk

/-- An admitted call that has completed. -/
structure Completed where
  finish : ℕ
  failed : Bool
  deriving DecidableEq

/-- The times of the failures since the last success, the latest one first. -/
def recentFailures (history : List Completed) : List ℕ :=
  (history.takeWhile (·.failed)).map (·.finish)

/-- A breaker in use, the admitted calls so far with the latest one first, and the
last reading of the clock. -/
structure System where
  inner : Inner
  history : List Completed
  clock : ℕ
  deriving DecidableEq

def System.new : System := ⟨Inner.new, [], 0⟩

/-- A call comes in once the one before it is over. -/
def step (b : Breaker) (s : System) (a : Attempt) : Option System :=
  if s.clock ≤ a.start ∧ a.start ≤ a.finish then
    let executed := execute b s.inner a.start a.finish a.outcome
    if executed.ran then some ⟨executed.inner, ⟨a.finish, a.failed⟩ :: s.history, a.finish⟩
    else some ⟨executed.inner, s.history, a.start⟩
  else none

/-- Enough calls have failed in a row, the last one less than the reset timeout ago. -/
def Blocked (b : Breaker) (history : List Completed) (now : ℕ) : Prop :=
  max b.failureThreshold.toNat 1 ≤ (recentFailures history).length ∧
    ∃ last, (recentFailures history).head? = some last ∧ now - last < b.resetTimeout

theorem recentFailures_cons_failure (finish : ℕ) (history : List Completed) :
    recentFailures (⟨finish, true⟩ :: history) = finish :: recentFailures history := rfl

theorem recentFailures_cons_success (finish : ℕ) (history : List Completed) :
    recentFailures (⟨finish, false⟩ :: history) = [] := rfl

section Executions

variable {T E : Type*} {b : Breaker} {inner : Inner} {start : ℕ}

theorem execute_of_refused (h : b.gate inner start = none) (finish : ℕ) (outcome : Except E T) :
    execute b inner start finish outcome = ⟨.error .opened, inner, false⟩ := by
  rw [execute, h]

theorem execute_of_admitted {admitted : Inner} (h : b.gate inner start = some admitted)
    (finish : ℕ) (outcome : Except E T) :
    execute b inner start finish outcome =
      ⟨ownResult outcome,
        if outcome.isOk then admitted.onSuccess else b.onFailure admitted finish, true⟩ := by
  rw [execute, h]
  cases outcome <;> rfl

/-- Everything a call of a sequence can do. -/
theorem step_cases {s t : System} {a : Attempt} (h : step b s a = some t) :
    s.clock ≤ a.start ∧ a.start ≤ a.finish ∧
      (b.gate s.inner a.start = none ∧ t = ⟨s.inner, s.history, a.start⟩ ∨
        ∃ admitted, b.gate s.inner a.start = some admitted ∧
          (a.failed = false ∧
              t = ⟨admitted.onSuccess, ⟨a.finish, false⟩ :: s.history, a.finish⟩ ∨
            a.failed = true ∧
              t = ⟨b.onFailure admitted a.finish, ⟨a.finish, true⟩ :: s.history, a.finish⟩)) := by
  unfold step at h
  split at h
  · rename_i hclock
    refine ⟨hclock.1, hclock.2, ?_⟩
    cases hgate : b.gate s.inner a.start with
    | none =>
      left
      rw [execute_of_refused hgate] at h
      exact ⟨rfl, (Option.some.inj h).symm⟩
    | some admitted =>
      right
      refine ⟨admitted, rfl, ?_⟩
      rw [execute_of_admitted hgate] at h
      cases hfailed : a.failed with
      | false =>
        have hok : a.outcome.isOk = true := by simpa [Attempt.failed] using hfailed
        simp only [hok, hfailed, if_true] at h
        exact Or.inl ⟨rfl, (Option.some.inj h).symm⟩
      | true =>
        have hok : a.outcome.isOk = false := by simpa [Attempt.failed] using hfailed
        simp only [hok, hfailed, if_true, Bool.false_eq_true, if_false] at h
        exact Or.inr ⟨rfl, (Option.some.inj h).symm⟩
  · contradiction

end Executions

section History

variable {b : Breaker}

/-- Between two calls the breaker is what the failures since the last success make it. -/
structure Tracks (b : Breaker) (s : System) : Prop where
  settled : s.inner.state ≠ .halfOpen
  counts : s.inner.failureCount.toNat = (recentFailures s.history).length
  opened : s.inner.state = .opened ↔
    max b.failureThreshold.toNat 1 ≤ (recentFailures s.history).length
  dated : s.inner.state = .opened → s.inner.openedAt = (recentFailures s.history).head?

theorem tracks_new (b : Breaker) : Tracks b System.new where
  settled := nofun
  counts := rfl
  opened := by
    refine iff_of_false nofun ?_
    simp only [System.new, recentFailures, List.takeWhile_nil, List.map_nil, List.length_nil]
    omega
  dated := nofun

/-- A call is refused exactly when the history blocks it. -/
theorem Tracks.gate_eq_none_iff {s : System} (h : Tracks b s) (now : ℕ) :
    b.gate s.inner now = none ↔ Blocked b s.history now := by
  unfold Blocked
  by_cases hopen : s.inner.state = .opened
  · have hmany := h.opened.mp hopen
    obtain ⟨last, hlast⟩ : ∃ last, (recentFailures s.history).head? = some last := by
      cases hrecent : recentFailures s.history with
      | nil =>
        rw [hrecent, List.length_nil] at hmany
        omega
      | cons last rest => exact ⟨last, rfl⟩
    have hsince : s.inner.openedAt = some last := (h.dated hopen).trans hlast
    rw [gate_of_opened b hopen, elapsed_of_openedAt hsince, hlast]
    by_cases hshort : now - last < b.resetTimeout
    · exact iff_of_true (if_pos hshort) ⟨hmany, last, rfl, hshort⟩
    · refine iff_of_false ?_ ?_
      · rw [if_neg hshort]
        exact nofun
      · intro h'
        obtain ⟨-, last', hlast', hshort'⟩ := h'
        rw [← Option.some.inj hlast'] at hshort'
        exact hshort hshort'
  · rw [gate_of_not_opened b hopen]
    refine iff_of_false nofun ?_
    intro h'
    obtain ⟨hmany, -⟩ := h'
    exact hopen (h.opened.mpr hmany)

/-- An admitted call finds the counter that the breaker had, and the breaker
half-open where it was open. -/
theorem admitted_of_gate {inner admitted : Inner} {now : ℕ} (hsettled : inner.state ≠ .halfOpen)
    (hgate : b.gate inner now = some admitted) :
    admitted.failureCount = inner.failureCount ∧ admitted.state ≠ .opened ∧
      (admitted.state = .halfOpen ↔ inner.state = .opened) := by
  rcases gate_cases b hgate with ⟨hopen, rfl⟩ | ⟨hopen, -, rfl⟩
  · exact ⟨rfl, hopen, iff_of_false hsettled hopen⟩
  · exact ⟨rfl, nofun, iff_of_true rfl hopen⟩

theorem tracks_success (admitted : Inner) (history : List Completed) (finish : ℕ) :
    Tracks b ⟨admitted.onSuccess, ⟨finish, false⟩ :: history, finish⟩ where
  settled := nofun
  counts := rfl
  opened := by
    refine iff_of_false nofun ?_
    rw [recentFailures_cons_success, List.length_nil]
    omega
  dated := nofun

/-- The counter goes up by one, and reaches the threshold with the history; a trial
that fails opens a breaker whose counter is past it. -/
theorem Tracks.failure {s : System} (h : Tracks b s) {admitted : Inner} {start finish : ℕ}
    (hgate : b.gate s.inner start = some admitted)
    (hfew : (recentFailures s.history).length + 1 < 2 ^ 32) :
    Tracks b ⟨b.onFailure admitted finish, ⟨finish, true⟩ :: s.history, finish⟩ := by
  obtain ⟨hcount, hnot, htrial⟩ := admitted_of_gate h.settled hgate
  have hnext : (admitted.failureCount + 1).toNat = (recentFailures s.history).length + 1 := by
    rw [hcount, UInt32.toNat_add, h.counts]
    exact Nat.mod_eq_of_lt hfew
  have hreaches : (admitted.state = .halfOpen ∨ b.failureThreshold ≤ admitted.failureCount + 1) ↔
      max b.failureThreshold.toNat 1 ≤ (recentFailures s.history).length + 1 := by
    rw [htrial, h.opened, UInt32.le_iff_toNat_le, hnext]
    omega
  have hrecent := recentFailures_cons_failure finish s.history
  by_cases hopens : admitted.state = .halfOpen ∨ b.failureThreshold ≤ admitted.failureCount + 1
  · have hfailure : b.onFailure admitted finish =
        ⟨.opened, admitted.failureCount + 1, some finish⟩ := by
      simp only [Breaker.onFailure, hopens, if_true]
    rw [hfailure]
    constructor
    · intro hhalf
      exact State.noConfusion hhalf
    · rw [hrecent]
      exact hnext
    · rw [hrecent]
      exact iff_of_true rfl (hreaches.mp hopens)
    · intro _
      rw [hrecent]
      rfl
  · have hfailure : b.onFailure admitted finish =
        ⟨admitted.state, admitted.failureCount + 1, admitted.openedAt⟩ := by
      simp only [Breaker.onFailure, hopens, if_false]
    rw [hfailure]
    constructor
    · exact fun hhalf => hopens (Or.inl hhalf)
    · rw [hrecent]
      exact hnext
    · rw [hrecent]
      exact iff_of_false hnot (fun hmany => hopens (hreaches.mpr hmany))
    · exact fun hopen => absurd hopen hnot

theorem Tracks.step {s t : System} {a : Attempt} (h : Tracks b s) (hstep : step b s a = some t)
    (hfew : (recentFailures t.history).length < 2 ^ 32) : Tracks b t := by
  obtain ⟨-, -, hcases⟩ := step_cases hstep
  rcases hcases with ⟨-, rfl⟩ | ⟨admitted, hgate, ⟨-, rfl⟩ | ⟨-, rfl⟩⟩
  · exact ⟨h.settled, h.counts, h.opened, h.dated⟩
  · exact tracks_success admitted s.history a.finish
  · exact h.failure hgate hfew

/-- The breaker tracks the history of a run with fewer than `2 ^ 32` failures in a row. -/
theorem tracks_of_run {attempts : List Attempt} {s : System}
    (hrun : run (step b) System.new attempts = some s)
    (hfew : ∀ t, Reached (step b) System.new attempts t →
      (recentFailures t.history).length < 2 ^ 32) : Tracks b s := by
  refine invariant_of_along (C := fun u a => ∀ t, step b u a = some t →
    (recentFailures t.history).length < 2 ^ 32) ?_ (tracks_new b) ?_ (reached_last hrun)
  · intro u a t h hshort hstep
    exact h.step hstep (hshort t hstep)
  · intro done a rest u hsplit hdone t hstep
    refine hfew t ⟨done ++ [a], rest, ?_, run_append hdone ?_⟩
    · rw [hsplit, List.append_assoc]
      rfl
    · rw [run_cons_of_step hstep]
      rfl

/-- A run has no more failures in a row than calls. -/
theorem length_recentFailures_le {attempts : List Attempt} {t : System}
    (h : Reached (step b) System.new attempts t) :
    (recentFailures t.history).length ≤ attempts.length := by
  have hhistory : ∀ (done : List Attempt) (s : System), run (step b) s done = some t →
      t.history.length ≤ s.history.length + done.length := by
    intro done
    induction done with
    | nil =>
      intro s hrun
      rw [Option.some.inj hrun]
      exact Nat.le_refl _
    | cons a rest ih =>
      intro s hrun
      obtain ⟨u, hstep, hrest⟩ := exists_step_of_run hrun
      have hle := ih u hrest
      rw [List.length_cons]
      obtain ⟨-, -, ⟨-, rfl⟩ | ⟨admitted, -, ⟨-, rfl⟩ | ⟨-, rfl⟩⟩⟩ := step_cases hstep
      · have hsame : t.history.length ≤ s.history.length + rest.length := hle
        omega
      · rw [List.length_cons] at hle
        omega
      · rw [List.length_cons] at hle
        omega
  obtain ⟨done, rest, hsplit, hrun⟩ := h
  have hle := hhistory done System.new hrun
  have hrecent : (recentFailures t.history).length ≤ t.history.length := by
    rw [recentFailures, List.length_map]
    exact (List.takeWhile_sublist _).length_le
  rw [hsplit, List.length_append]
  have hnew : System.new.history.length = 0 := rfl
  omega

/-- In a sequence of calls that do not overlap the next one is refused exactly when
at least the threshold of calls, and one, have failed since the last success, the
last of them less than the reset timeout ago. Any other one runs and gives its own
result. -/
theorem execute_exact (b : Breaker) (attempts : List Attempt) (s : System)
    (hrun : run (step b) System.new attempts = some s)
    (hfew : ∀ t, Reached (step b) System.new attempts t →
      (recentFailures t.history).length < 2 ^ 32) (next : Attempt) :
    let executed := execute b s.inner next.start next.finish next.outcome
    (executed.ran = false ∧ executed.result = .error .opened ↔
        Blocked b s.history next.start) ∧
      (¬ Blocked b s.history next.start →
        executed.ran = true ∧ executed.result = ownResult next.outcome) := by
  have hgate := (tracks_of_run hrun hfew).gate_eq_none_iff next.start
  by_cases hblocked : Blocked b s.history next.start
  · rw [execute_of_refused (hgate.mpr hblocked)]
    exact ⟨iff_of_true ⟨rfl, rfl⟩ hblocked, fun hfree => absurd hblocked hfree⟩
  · obtain ⟨admitted, hadmitted⟩ :=
      Option.ne_none_iff_exists'.mp fun hnone => hblocked (hgate.mp hnone)
    rw [execute_of_admitted hadmitted]
    refine ⟨iff_of_false ?_ hblocked, fun _ => ⟨rfl, rfl⟩⟩
    intro h
    obtain ⟨hran, -⟩ := h
    exact Bool.noConfusion hran

/-- A call that fails at the time 1. -/
def failing : Attempt := ⟨Unit, Unit, 0, 1, .error ()⟩

/-- A call at the time 5. -/
def early : Attempt := ⟨Unit, Unit, 5, 6, .ok ()⟩

theorem execute_exact_early :
    let executed := execute sensitive ⟨.opened, 1, some 1⟩ early.start early.finish early.outcome
    (executed.ran = false ∧ executed.result = .error .opened ↔
        Blocked sensitive [⟨1, true⟩] early.start) ∧
      (¬ Blocked sensitive [⟨1, true⟩] early.start →
        executed.ran = true ∧ executed.result = ownResult early.outcome) := by
  have hfew : ∀ t, Reached (step sensitive) System.new [failing] t →
      (recentFailures t.history).length < 2 ^ 32 := by
    intro t ht
    exact Nat.lt_of_le_of_lt (length_recentFailures_le ht) (by decide)
  exact execute_exact sensitive [failing] ⟨⟨.opened, 1, some 1⟩, [⟨1, true⟩], 1⟩ rfl hfew early

end History

section Overlapping

variable {b : Breaker}

/-- The breaker whose calls may overlap, with no call in flight. -/
structure Idle (s : System) (c : CircuitBreaker.System) : Prop where
  inner : c.inner = s.inner
  inFlight : c.inFlight = []
  clock : c.clock = s.clock

theorem step_call_of_idle {s : System} {c : CircuitBreaker.System} (h : Idle s c) {now : ℕ}
    (hclock : s.clock ≤ now) :
    CircuitBreaker.step b c (.call 0 now) =
      some ((b.gate s.inner now).elim (c.refuse now) fun inner => c.enter 0 inner now) := by
  have hin : c.ComesIn 0 now := by
    refine ⟨h.clock ▸ hclock, ?_⟩
    rw [h.inFlight]
    exact nofun
  simp only [CircuitBreaker.step, hin, if_true, h.inner]
  cases b.gate s.inner now <;> rfl

/-- A call that is admitted is the only one in flight, and completes. -/
theorem exists_run_of_admitted {s : System} {c : CircuitBreaker.System} (h : Idle s c)
    {admitted inner : Inner} {start finish : ℕ} (hclock : s.clock ≤ start)
    (hlater : start ≤ finish) (hgate : b.gate s.inner start = some admitted)
    (completion : Event) (history : List Completed)
    (hcompletion : ∀ d : CircuitBreaker.System, d.inner = admitted → d.Completes 0 finish →
      CircuitBreaker.step b d completion = some (d.leave 0 inner finish)) :
    ∃ events c', run (CircuitBreaker.step b) c events = some c' ∧
      Idle ⟨inner, history, finish⟩ c' := by
  have hcall := step_call_of_idle (b := b) h hclock
  rw [hgate, Option.elim_some] at hcall
  have hcalls : (c.enter 0 admitted start).inFlight = [⟨0, admitted.state = .halfOpen⟩] := by
    rw [CircuitBreaker.System.enter, h.inFlight]
  have hout : (c.enter 0 admitted start).Completes 0 finish := by
    refine ⟨hlater, ⟨0, admitted.state = .halfOpen⟩, ?_, rfl⟩
    rw [hcalls]
    exact List.mem_singleton_self _
  refine ⟨[.call 0 start, completion], (c.enter 0 admitted start).leave 0 inner finish, ?_,
    rfl, ?_, rfl⟩
  · rw [run_cons_of_step hcall, run_cons_of_step (hcompletion _ rfl hout)]
    rfl
  · show (c.enter 0 admitted start).others 0 = []
    rw [CircuitBreaker.System.others, hcalls]
    rfl

/-- A call of a sequence is one that comes in and, where it is admitted, completes
before any other. -/
theorem exists_run_of_step {s t : System} {a : Attempt} {c : CircuitBreaker.System}
    (h : Idle s c) (hstep : step b s a = some t) :
    ∃ events c', run (CircuitBreaker.step b) c events = some c' ∧ Idle t c' := by
  obtain ⟨hclock, hlater, hcases⟩ := step_cases hstep
  rcases hcases with ⟨hgate, rfl⟩ | ⟨admitted, hgate, ⟨-, rfl⟩ | ⟨-, rfl⟩⟩
  · have hcall := step_call_of_idle (b := b) h hclock
    rw [hgate, Option.elim_none] at hcall
    exact ⟨[.call 0 a.start], _, run_cons_of_step hcall [], h.inner, h.inFlight, rfl⟩
  · refine exists_run_of_admitted h hclock hlater hgate (.success 0 a.finish) _ ?_
    intro d hinner hout
    rw [← hinner]
    exact if_pos hout
  · refine exists_run_of_admitted h hclock hlater hgate (.failure 0 a.finish) _ ?_
    intro d hinner hout
    rw [← hinner]
    exact if_pos hout

/-- A sequence of calls is one of the runs in which calls may overlap. -/
theorem exists_run_of_run {s t : System} {attempts : List Attempt} {c : CircuitBreaker.System}
    (h : Idle s c) (hrun : run (step b) s attempts = some t) :
    ∃ events c', run (CircuitBreaker.step b) c events = some c' ∧ Idle t c' := by
  induction attempts generalizing s c with
  | nil =>
    rw [← Option.some.inj hrun]
    exact ⟨[], c, rfl, h⟩
  | cons a rest ih =>
    obtain ⟨u, hstep, hrest⟩ := exists_step_of_run hrun
    obtain ⟨events, c', hevents, hidle⟩ := exists_run_of_step h hstep
    obtain ⟨later, c'', hlater, hend⟩ := ih hidle hrest
    exact ⟨events ++ later, c'', run_append hevents hlater, hend⟩

end Overlapping

end SqlServerMcp.BreakerHistory
