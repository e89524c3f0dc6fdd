import Mathlib.Data.List.Basic
import SqlServerMcp.Runs

/-!
The sliding window before every call. Times that have left the window are dropped
whenever a call comes in, and no later decision misses them. Time is counted in
nanoseconds; the readings do not run backwards in the order of the lock.
-/
namespace SqlServerMcp.RateLimiter

open Runs

/-- The limits of a limiter; its timestamps are kept apart. -/
structure Limiter where
  limit : ℕ
  window : ℕ

inductive AcquireError where
  | rateLimitExceeded
  deriving DecidableEq

namespace Limiter

variable (limiter : Limiter)

/-- The times that are still in the window of a reading. -/
def recent (now : ℕ) (times : List ℕ) : List ℕ := times.filter fun t => now - t < limiter.window

/-- The result of a call, and the timestamps that it leaves. -/
def acquire (timestamps : List ℕ) (now : ℕ) : Except AcquireError Unit × List ℕ :=
  let kept := limiter.recent now timestamps
  if limiter.limit ≤ kept.length then (.error .rateLimitExceeded, kept) else (.ok (), kept ++ [now])

/-- The times from a start that lie in one window. -/
def windowFrom (start : ℕ) (times : List ℕ) : List ℕ :=
  times.filter fun t => start ≤ t ∧ t < start + limiter.window

end Limiter

/-- A limiter in use: its timestamps, the times of all calls that succeeded, and
the last reading. -/
structure System where
  timestamps : List ℕ
  successes : List ℕ
  clock : ℕ

def System.new : System := ⟨[], [], 0⟩

section Step

variable (limiter : Limiter)

/-- A call reads the time and acquires. -/
def step (s : System) (now : ℕ) : Option System :=
  if s.clock ≤ now then
    let acquired := limiter.acquire s.timestamps now
    some ⟨acquired.2, s.successes ++ (if acquired.1 = .ok () then [now] else []), now⟩
  else none

/-- The timestamps decide every later call as all successes would, and no window
has too many of these. -/
structure Exact (s : System) : Prop where
  past : ∀ t ∈ s.successes, t ≤ s.clock
  decides : ∀ now, s.clock ≤ now →
    limiter.recent now s.timestamps = limiter.recent now s.successes
  bounded : ∀ start, (limiter.windowFrom start s.successes).length ≤ limiter.limit

theorem exact_new : Exact limiter System.new :=
  ⟨nofun, fun _ _ => rfl, fun _ => Nat.zero_le _⟩

variable {limiter}

theorem acquire_eq_ok_iff (timestamps : List ℕ) (now : ℕ) :
    (limiter.acquire timestamps now).1 = .ok () ↔
      (limiter.recent now timestamps).length < limiter.limit := by
  unfold Limiter.acquire
  by_cases hfull : limiter.limit ≤ (limiter.recent now timestamps).length
  · exact iff_of_false (by simp [hfull]) (Nat.not_lt.mpr hfull)
  · exact iff_of_true (by simp [hfull]) (Nat.not_le.mp hfull)

/-- What one reading drops, every later one would drop as well. -/
theorem recent_recent {now later : ℕ} (h : now ≤ later) (times : List ℕ) :
    limiter.recent later (limiter.recent now times) = limiter.recent later times := by
  unfold Limiter.recent
  rw [List.filter_filter]
  apply List.filter_congr
  intro t _
  rw [Bool.and_eq_left_iff_imp, decide_eq_true_eq, decide_eq_true_eq]
  intro hlater
  omega

theorem recent_append (now : ℕ) (times times' : List ℕ) :
    limiter.recent now (times ++ times') =
      limiter.recent now times ++ limiter.recent now times' :=
  List.filter_append _ _

/-- Everything a call can do. -/
theorem step_cases {s t : System} {now : ℕ} (h : step limiter s now = some t) :
    s.clock ≤ now ∧
      ((limiter.recent now s.timestamps).length < limiter.limit ∧
          t = ⟨limiter.recent now s.timestamps ++ [now], s.successes ++ [now], now⟩ ∨
        limiter.limit ≤ (limiter.recent now s.timestamps).length ∧
          t = ⟨limiter.recent now s.timestamps, s.successes, now⟩) := by
  unfold step at h
  split at h
  · rename_i hclock
    refine ⟨hclock, ?_⟩
    rw [← Option.some.inj h]
    unfold Limiter.acquire
    by_cases hfull : limiter.limit ≤ (limiter.recent now s.timestamps).length
    · right
      simp [hfull]
    · left
      simp [hfull, Nat.not_le.mp hfull]
  · contradiction

/-- A success fits into every window that its time lies in: the earlier ones of the
window are recent. -/
theorem bounded_append {successes : List ℕ} {now : ℕ} (hpast : ∀ t ∈ successes, t ≤ now)
    (hbounded : ∀ start, (limiter.windowFrom start successes).length ≤ limiter.limit)
    (hfree : (limiter.recent now successes).length < limiter.limit) (start : ℕ) :
    (limiter.windowFrom start (successes ++ [now])).length ≤ limiter.limit := by
  have happend : limiter.windowFrom start (successes ++ [now]) =
      limiter.windowFrom start successes ++ limiter.windowFrom start [now] :=
    List.filter_append _ _
  rw [happend, List.length_append]
  by_cases hin : start ≤ now ∧ now < start + limiter.window
  · have hone : limiter.windowFrom start [now] = [now] := by simp [Limiter.windowFrom, hin]
    have hle : (limiter.windowFrom start successes).length ≤
        (limiter.recent now successes).length := by
      unfold Limiter.windowFrom Limiter.recent
      rw [← List.countP_eq_length_filter, ← List.countP_eq_length_filter]
      apply List.countP_mono_left
      intro t ht hwindow
      have htnow := hpast t ht
      have hstart : start ≤ t ∧ t < start + limiter.window := of_decide_eq_true hwindow
      apply decide_eq_true
      omega
    rw [hone, List.length_singleton]
    omega
  · have hnone : limiter.windowFrom start [now] = [] := by simp [Limiter.windowFrom, hin]
    rw [hnone]
    exact hbounded start

theorem Exact.step {s t : System} {now : ℕ} (h : Exact limiter s)
    (hstep : step limiter s now = some t) : Exact limiter t := by
  obtain ⟨hclock, hcases⟩ := step_cases hstep
  have hpast : ∀ u ∈ s.successes, u ≤ now := fun u hu => Nat.le_trans (h.past u hu) hclock
  rcases hcases with ⟨hfree, rfl⟩ | ⟨-, rfl⟩
  · rw [h.decides now hclock] at hfree
    refine ⟨?_, ?_, bounded_append hpast h.bounded hfree⟩
    · intro u hu
      rcases List.mem_append.mp hu with hold | hnew
      · exact hpast u hold
      · exact Nat.le_of_eq (List.mem_singleton.mp hnew)
    · intro later hlater
      show limiter.recent later (limiter.recent now s.timestamps ++ [now]) =
        limiter.recent later (s.successes ++ [now])
      rw [recent_append, recent_append, recent_recent hlater,
        h.decides later (Nat.le_trans hclock hlater)]
  · refine ⟨hpast, ?_, h.bounded⟩
    intro later hlater
    show limiter.recent later (limiter.recent now s.timestamps) = limiter.recent later s.successes
    rw [recent_recent hlater, h.decides later (Nat.le_trans hclock hlater)]

end Step

/-- After any run a call succeeds exactly when fewer successes than the limit are
recent, and no window of the run has more successes than that. -/
theorem acquire_exact (limiter : Limiter) (readings : List ℕ) (s : System)
    (h : run (step limiter) System.new readings = some s) :
    (∀ now, s.clock ≤ now → ((limiter.acquire s.timestamps now).1 = .ok () ↔
      (s.successes.filter fun t => now - t < limiter.window).length < limiter.limit)) ∧
      ∀ start, (limiter.windowFrom start s.successes).length ≤ limiter.limit := by
  have hexact : Exact limiter s :=
    invariant_of_reached (fun _ _ _ hs hstep => hs.step hstep) (exact_new limiter) (reached_last h)
  refine ⟨?_, hexact.bounded⟩
  intro now hclock
  rw [acquire_eq_ok_iff, hexact.decides now hclock, Limiter.recent]

/-- Two calls in one window of ten nanoseconds, and one that is refused. -/
theorem acquire_exact_refused :
    (∀ now, 8 ≤ now → (((⟨2, 10⟩ : Limiter).acquire [0, 5] now).1 = .ok () ↔
      ([0, 5].filter fun t => now - t < 10).length < 2)) ∧
      ∀ start, ((⟨2, 10⟩ : Limiter).windowFrom start [0, 5]).length ≤ 2 :=
  acquire_exact ⟨2, 10⟩ [0, 5, 8] ⟨[0, 5], [0, 5], 8⟩ rfl

end SqlServerMcp.RateLimiter
