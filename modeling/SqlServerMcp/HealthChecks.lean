import SqlServerMcp.AssocMap
import SqlServerMcp.LastWrite

/-!
Health checks and the registry they report to. The manager lists the checks in the
order of their registration, and the registry has one state for each name. What a run
of the checks shows is the verdict on the checks registered last under their names.
-/
namespace SqlServerMcp.HealthChecks

open AssocMap LastWrite

inductive ComponentStatus where
  | healthy
  | degraded
  | unhealthy
  deriving DecidableEq

structure ComponentState where
  name : String
  critical : Bool
  status : ComponentStatus
  lastCheckedAt : Option ℕ
  lastError : Option String
  deriving DecidableEq

abbrev ComponentRegistry := Map String ComponentState

namespace ComponentRegistry

def register (registry : ComponentRegistry) (name : String) (critical : Bool) :
    ComponentRegistry :=
  registry.insert name ⟨name, critical, .healthy, none, none⟩

/-- The entry is rebuilt; only whether the component is critical is kept. -/
def report (registry : ComponentRegistry) (name : String) (status : ComponentStatus)
    (error : Option String) (now : ℕ) : ComponentRegistry :=
  let critical := ((registry.get name).map (·.critical)).getD false
  registry.insert name ⟨name, critical, status, some now, error⟩

def states (registry : ComponentRegistry) : List ComponentState := registry.entries.map Prod.snd

def overallStatus (registry : ComponentRegistry) : ComponentStatus :=
  if registry.states.any fun c => c.critical && c.status = .unhealthy then .unhealthy
  else if registry.states.any fun c => c.status ≠ .healthy then .degraded
  else .healthy

end ComponentRegistry

/-- The check did not finish in time. -/
structure Elapsed where
  deriving DecidableEq

/-- What a check gives within its timeout, and when that is reported. -/
structure Outcome where
  result : Except Elapsed (Except String Unit)
  finishedAt : ℕ
  deriving DecidableEq

namespace Outcome

def passed (outcome : Outcome) : Bool :=
  match outcome.result with
  | .ok (.ok ()) => true
  | _ => false

def status (outcome : Outcome) : ComponentStatus :=
  match outcome.result with
  | .ok (.ok ()) => .healthy
  | .ok (.error _) => .unhealthy
  | .error _ => .unhealthy

def error (outcome : Outcome) : Option String :=
  match outcome.result with
  | .ok (.ok ()) => none
  | .ok (.error err) => some err
  | .error _ => some "timed out"

end Outcome

/-- A check gives an outcome in each run of the manager. -/
structure RegisteredCheck where
  name : String
  check : ℕ → Outcome

structure HealthCheckManager where
  registry : ComponentRegistry
  checks : List RegisteredCheck

namespace HealthCheckManager

def new : HealthCheckManager := ⟨Map.empty, []⟩

def register (manager : HealthCheckManager) (name : String) (critical : Bool)
    (check : ℕ → Outcome) : HealthCheckManager where
  registry := manager.registry.register name critical
  checks := manager.checks ++ [⟨name, check⟩]

/-- One check of a run is made and reported. -/
def reportCheck (run : ℕ) (registry : ComponentRegistry) (c : RegisteredCheck) :
    ComponentRegistry :=
  registry.report c.name (c.check run).status (c.check run).error (c.check run).finishedAt

def runOnce (manager : HealthCheckManager) (run : ℕ) : HealthCheckManager :=
  { manager with registry := manager.checks.foldl (reportCheck run) manager.registry }

end HealthCheckManager

/-- A call of the manager: a registration, or the run of a number. -/
inductive Call where
  | register (name : String) (critical : Bool) (check : ℕ → Outcome)
  | runOnce (run : ℕ)

def Call.perform (manager : HealthCheckManager) : Call → HealthCheckManager
  | .register name critical check => manager.register name critical check
  | .runOnce run => manager.runOnce run

def performAll (calls : List Call) : HealthCheckManager :=
  calls.foldl Call.perform HealthCheckManager.new

/-- A check as it was registered. -/
structure Registration where
  name : String
  critical : Bool
  check : ℕ → Outcome

namespace Registration

/-- The check fails or times out in a run. -/
def fails (r : Registration) (run : ℕ) : Bool := !(r.check run).passed

def toCheck (r : Registration) : RegisteredCheck := ⟨r.name, r.check⟩

end Registration

def Call.registration : Call → Option Registration
  | .register name critical check => some ⟨name, critical, check⟩
  | .runOnce _ => none

def registrations (calls : List Call) : List Registration := calls.filterMap Call.registration

/-- Unhealthy where a critical check fails, degraded where only others do. -/
def verdict (rs : List Registration) (run : ℕ) : ComponentStatus :=
  if rs.any fun r => r.critical && r.fails run then .unhealthy
  else if rs.any fun r => r.fails run then .degraded
  else .healthy

/-- The registrations that no later one of their name follows. -/
def current : List Registration → List Registration
  | [] => []
  | r :: rest => if rest.any (·.name = r.name) then current rest else r :: current rest

/-- The registration of a name, where it is one. -/
def under (name : String) (r : Registration) : Option Registration :=
  if r.name = name then some r else none

section Latest

theorem latest_under_cons (name : String) (r : Registration) (rest : List Registration) :
    latest (under name) (r :: rest) = (latest (under name) rest).or (under name r) := by
  have hone : latest (under name) [r] = under name r := by
    rw [← List.nil_append [r], latest_concat]
    exact Option.or_none
  rw [← List.singleton_append, latest_append, hone]

theorem latest_under_eq_none_iff (name : String) (rs : List Registration) :
    latest (under name) rs = none ↔ ∀ r ∈ rs, r.name ≠ name := by
  simp [latest_eq_none_iff, under]

theorem any_name_iff (name : String) (rs : List Registration) :
    rs.any (·.name = name) = true ↔ latest (under name) rs ≠ none := by
  rw [ne_eq, latest_under_eq_none_iff]
  simp

theorem mem_current {r : Registration} {rs : List Registration} (h : r ∈ current rs) : r ∈ rs := by
  induction rs with
  | nil => exact h
  | cons a rest ih =>
    rw [current] at h
    split at h
    · exact List.mem_cons_of_mem a (ih h)
    · rcases List.mem_cons.mp h with rfl | hrest
      · exact List.mem_cons_self
      · exact List.mem_cons_of_mem a (ih hrest)

/-- The current registrations are the last ones of their names. -/
theorem latest_under_eq_some_iff (name : String) (rs : List Registration) (r : Registration) :
    latest (under name) rs = some r ↔ r ∈ current rs ∧ r.name = name := by
  induction rs with
  | nil => simp [latest, current]
  | cons a rest ih =>
    rw [latest_under_cons, current]
    by_cases ha : a.name = name
    · rw [under, if_pos ha, ha]
      cases hlatest : latest (under name) rest with
      | some last =>
        have hhidden : rest.any (·.name = name) = true :=
          (any_name_iff name rest).mpr (by simp [hlatest])
        rw [if_pos hhidden, ← ih, hlatest, Option.some_or]
      | none =>
        have hlast : ¬ rest.any (·.name = name) = true := by
          rw [any_name_iff, hlatest]
          exact not_not.mpr rfl
        rw [if_neg hlast, Option.none_or, Option.some.injEq, List.mem_cons]
        constructor
        · intro h
          subst h
          exact ⟨Or.inl rfl, ha⟩
        · intro h
          obtain ⟨rfl | hrest, heq⟩ := h
          · rfl
          · exact absurd heq ((latest_under_eq_none_iff name rest).mp hlatest r (mem_current hrest))
    · rw [under, if_neg ha, Option.or_none, ih]
      split
      · exact Iff.rfl
      · rw [List.mem_cons]
        constructor
        · intro h
          obtain ⟨hrest, heq⟩ := h
          exact ⟨Or.inr hrest, heq⟩
        · intro h
          obtain ⟨rfl | hrest, heq⟩ := h
          · exact absurd heq ha
          · exact ⟨hrest, heq⟩

end Latest

section Reports

open HealthCheckManager

variable (run : ℕ)

theorem status_eq (outcome : Outcome) :
    outcome.status = if outcome.passed then .healthy else .unhealthy := by
  unfold Outcome.status Outcome.passed
  rcases outcome.result with _ | (_ | _) <;> rfl

theorem get_reportCheck (registry : ComponentRegistry) (c : RegisteredCheck) (name : String) :
    (reportCheck run registry c).get name =
      if name = c.name then
        some ⟨c.name, ((registry.get c.name).map (·.critical)).getD false, (c.check run).status,
          some (c.check run).finishedAt, (c.check run).error⟩
      else registry.get name :=
  Map.get_insert registry c.name name _

/-- A report keeps what is registered, and whether it is critical. -/
theorem critical_reportCheck {registry : ComponentRegistry} {c : RegisteredCheck}
    (h : registry.get c.name ≠ none) (name : String) :
    ((reportCheck run registry c).get name).map (·.critical) =
      (registry.get name).map (·.critical) := by
  rw [get_reportCheck]
  by_cases hname : name = c.name
  · subst hname
    obtain ⟨state, hstate⟩ := Option.ne_none_iff_exists'.mp h
    rw [if_pos rfl, hstate]
    rfl
  · rw [if_neg hname]

theorem critical_foldl_reportCheck {checks : List RegisteredCheck} {registry : ComponentRegistry}
    (h : ∀ c ∈ checks, registry.get c.name ≠ none) (name : String) :
    ((checks.foldl (reportCheck run) registry).get name).map (·.critical) =
      (registry.get name).map (·.critical) := by
  induction checks generalizing registry with
  | nil => rfl
  | cons c rest ih =>
    have hc := h c List.mem_cons_self
    rw [List.foldl_cons, ih, critical_reportCheck run hc]
    intro d hd hnone
    have hsame := critical_reportCheck run hc d.name
    rw [hnone, Option.map_none, eq_comm, Option.map_eq_none_iff] at hsame
    exact h d (List.mem_cons_of_mem c hd) hsame

/-- The last report on a name decides its status. -/
theorem status_foldl_reportCheck (rs : List Registration) (registry : ComponentRegistry)
    (name : String) :
    (((rs.map Registration.toCheck).foldl (reportCheck run) registry).get name).map (·.status) =
      ((latest (under name) rs).map fun r => some (r.check run).status).getD
        ((registry.get name).map (·.status)) := by
  rw [List.foldl_map]
  refine view_foldl (fun registry : ComponentRegistry => (registry.get name).map (·.status))
    (fun r : Registration => some (r.check run).status) ?_ registry rs
  intro registry r
  show ((reportCheck run registry r.toCheck).get name).map (·.status) = _
  rw [get_reportCheck, under]
  by_cases hname : r.name = name
  · have hcheck : name = r.toCheck.name := hname.symm
    rw [if_pos hname, if_pos hcheck]
    rfl
  · have hcheck : name ≠ r.toCheck.name := fun heq => hname heq.symm
    rw [if_neg hname, if_neg hcheck]
    rfl

end Reports

section Runs

open HealthCheckManager

/-- The checks are those registered, and the registry has the last registration of
each name. -/
structure Tracks (rs : List Registration) (manager : HealthCheckManager) : Prop where
  checks : manager.checks = rs.map Registration.toCheck
  criticals : ∀ name, (manager.registry.get name).map (·.critical) =
    (latest (under name) rs).map (·.critical)

theorem tracks_new : Tracks [] HealthCheckManager.new := ⟨rfl, fun _ => rfl⟩

theorem Tracks.register {rs : List Registration} {manager : HealthCheckManager}
    (h : Tracks rs manager) (r : Registration) :
    Tracks (rs ++ [r]) (manager.register r.name r.critical r.check) where
  checks := by
    rw [HealthCheckManager.register, h.checks, List.map_append]
    rfl
  criticals := by
    intro name
    rw [latest_concat]
    show ((manager.registry.register r.name r.critical).get name).map (·.critical) = _
    rw [ComponentRegistry.register, Map.get_insert, under]
    by_cases hname : r.name = name
    · rw [if_pos hname, if_pos hname.symm]
      rfl
    · rw [if_neg hname, if_neg (Ne.symm hname), Option.none_or]
      exact h.criticals name

theorem Tracks.get_ne_none {rs : List Registration} {manager : HealthCheckManager}
    (h : Tracks rs manager) : ∀ c ∈ manager.checks, manager.registry.get c.name ≠ none := by
  intro c hc hnone
  rw [h.checks] at hc
  obtain ⟨r, hr, rfl⟩ := List.mem_map.mp hc
  have hcritical := h.criticals r.toCheck.name
  rw [hnone, Option.map_none, eq_comm, Option.map_eq_none_iff] at hcritical
  exact (latest_under_eq_none_iff r.name rs).mp hcritical r hr rfl

theorem Tracks.runOnce {rs : List Registration} {manager : HealthCheckManager}
    (h : Tracks rs manager) (run : ℕ) : Tracks rs (manager.runOnce run) where
  checks := h.checks
  criticals := by
    intro name
    rw [← h.criticals name]
    exact critical_foldl_reportCheck run h.get_ne_none name

theorem tracks_performAll (calls : List Call) :
    Tracks (registrations calls) (performAll calls) := by
  induction calls using List.reverseRecOn with
  | nil => exact tracks_new
  | append_singleton calls c ih =>
    rw [performAll, List.foldl_concat, registrations, List.filterMap_append]
    cases c with
    | register name critical check => exact ih.register ⟨name, critical, check⟩
    | runOnce run =>
      have hnone : List.filterMap Call.registration [.runOnce run] = [] := rfl
      rw [hnone, List.append_nil]
      exact ih.runOnce run

/-- After a run of the checks the registry shows, under each name, the criticality and
the outcome of its last registration. -/
theorem get_runOnce {rs : List Registration} {manager : HealthCheckManager}
    (h : Tracks rs manager) (run : ℕ) (name : String) :
    ((manager.runOnce run).registry.get name).map (fun c => (c.critical, c.status)) =
      (latest (under name) rs).map fun r => (r.critical, (r.check run).status) := by
  have hcritical := (h.runOnce run).criticals name
  have hstatus : ((manager.runOnce run).registry.get name).map (·.status) =
      ((latest (under name) rs).map fun r => some (r.check run).status).getD
        ((manager.registry.get name).map (·.status)) := by
    rw [HealthCheckManager.runOnce, h.checks]
    exact status_foldl_reportCheck run rs manager.registry name
  cases hlatest : latest (under name) rs with
  | none =>
    rw [hlatest, Option.map_none, Option.map_eq_none_iff] at hcritical
    rw [hcritical]
    rfl
  | some r =>
    rw [hlatest] at hcritical hstatus
    cases hget : (manager.runOnce run).registry.get name with
    | none =>
      rw [hget] at hcritical
      contradiction
    | some c =>
      rw [hget] at hcritical hstatus
      have hc : c.critical = r.critical := Option.some.inj hcritical
      have hs : c.status = (r.check run).status := Option.some.inj hstatus
      rw [Option.map_some, Option.map_some, hc, hs]

/-- What holds of some state in the registry holds of a current registration. -/
theorem any_states_runOnce {rs : List Registration} {manager : HealthCheckManager}
    (h : Tracks rs manager) (run : ℕ) (p : Bool × ComponentStatus → Bool) :
    ((manager.runOnce run).registry.states.any fun c => p (c.critical, c.status)) =
      (current rs).any fun r => p (r.critical, (r.check run).status) := by
  have hshown : ∀ shown, (∃ name, ((manager.runOnce run).registry.get name).map
      (fun c => (c.critical, c.status)) = some shown) ↔
      ∃ r ∈ current rs, (r.critical, (r.check run).status) = shown := by
    intro shown
    constructor
    · intro h'
      obtain ⟨name, hname⟩ := h'
      rw [get_runOnce h] at hname
      obtain ⟨r, hr, heq⟩ := Option.map_eq_some_iff.mp hname
      exact ⟨r, ((latest_under_eq_some_iff name rs r).mp hr).1, heq⟩
    · intro h'
      obtain ⟨r, hr, heq⟩ := h'
      refine ⟨r.name, ?_⟩
      rw [get_runOnce h, (latest_under_eq_some_iff r.name rs r).mpr ⟨hr, rfl⟩, ← heq]
      rfl
  rw [Bool.eq_iff_iff, List.any_eq_true, List.any_eq_true]
  constructor
  · intro h'
    obtain ⟨c, hc, hp⟩ := h'
    obtain ⟨⟨name, c'⟩, hmem, rfl⟩ := List.mem_map.mp hc
    have hget : (manager.runOnce run).registry.get name = some c' :=
      (lookup_eq_some_iff_mem (Map.distinct _) name c').mpr hmem
    obtain ⟨r, hr, heq⟩ := (hshown (c'.critical, c'.status)).mp ⟨name, by rw [hget]; rfl⟩
    exact ⟨r, hr, heq ▸ hp⟩
  · intro h'
    obtain ⟨r, hr, hp⟩ := h'
    obtain ⟨name, hname⟩ := (hshown _).mpr ⟨r, hr, rfl⟩
    obtain ⟨c, hc, heq⟩ := Option.map_eq_some_iff.mp hname
    have hmem := (lookup_eq_some_iff_mem (Map.distinct _) name c).mp hc
    exact ⟨c, List.mem_map.mpr ⟨(name, c), hmem, rfl⟩, heq ▸ hp⟩

/-- A run shows the verdict on the current registrations. -/
theorem overallStatus_runOnce {rs : List Registration} {manager : HealthCheckManager}
    (h : Tracks rs manager) (run : ℕ) :
    (manager.runOnce run).registry.overallStatus = verdict (current rs) run := by
  have hunhealthy : ∀ r : Registration, ((r.check run).status = .unhealthy) = r.fails run := by
    intro r
    rw [status_eq, Registration.fails]
    cases (r.check run).passed <;> simp
  have hnot : ∀ r : Registration, ((r.check run).status ≠ .healthy) = r.fails run := by
    intro r
    rw [status_eq, Registration.fails]
    cases (r.check run).passed <;> simp
  unfold ComponentRegistry.overallStatus verdict
  rw [any_states_runOnce h run fun shown => shown.1 && shown.2 = .unhealthy,
    any_states_runOnce h run fun shown => shown.2 ≠ .healthy]
  simp only [hunhealthy, hnot, Bool.decide_eq_true]

end Runs

section Verdicts

/-- A failure of a critical check is not hidden behind later registrations, and
neither is a failure of any check: one of each kind that occurs is current. -/
def Shown (rs : List Registration) (run : ℕ) : Prop :=
  (∀ r ∈ rs, r.critical = true → r.fails run = true →
      ∃ r' ∈ current rs, r'.critical = true ∧ r'.fails run = true) ∧
    ∀ r ∈ rs, r.fails run = true → ∃ r' ∈ current rs, r'.fails run = true

theorem any_critical_iff (rs : List Registration) (run : ℕ) :
    (rs.any fun r => r.critical && r.fails run) = true ↔
      ∃ r ∈ rs, r.critical = true ∧ r.fails run = true := by
  simp only [List.any_eq_true, Bool.and_eq_true]

theorem any_of_any_current {rs : List Registration} {p : Registration → Bool}
    (h : (current rs).any p = true) : rs.any p = true := by
  obtain ⟨r, hr, hp⟩ := List.any_eq_true.mp h
  exact List.any_eq_true.mpr ⟨r, mem_current hr, hp⟩

theorem any_fails_of_any_critical {rs : List Registration} {run : ℕ}
    (h : (rs.any fun r => r.critical && r.fails run) = true) :
    (rs.any fun r => r.fails run) = true := by
  obtain ⟨r, hr, -, hfails⟩ := (any_critical_iff rs run).mp h
  exact List.any_eq_true.mpr ⟨r, hr, hfails⟩

theorem shown_iff_any (rs : List Registration) (run : ℕ) :
    Shown rs run ↔
      ((rs.any fun r => r.critical && r.fails run) = true →
        ((current rs).any fun r => r.critical && r.fails run) = true) ∧
      ((rs.any fun r => r.fails run) = true →
        ((current rs).any fun r => r.fails run) = true) := by
  unfold Shown
  rw [any_critical_iff, any_critical_iff, List.any_eq_true, List.any_eq_true]
  constructor
  · intro h
    obtain ⟨hcritical, hany⟩ := h
    exact ⟨fun ⟨r, hr, hc, hf⟩ => hcritical r hr hc hf, fun ⟨r, hr, hf⟩ => hany r hr hf⟩
  · intro h
    obtain ⟨hcritical, hany⟩ := h
    exact ⟨fun r hr hc hf => hcritical ⟨r, hr, hc, hf⟩, fun r hr hf => hany ⟨r, hr, hf⟩⟩

/-- Hiding a failure changes the verdict, and nothing else does. -/
theorem verdict_current_iff (rs : List Registration) (run : ℕ) :
    verdict (current rs) run = verdict rs run ↔ Shown rs run := by
  have hcritical : ((current rs).any fun r => r.critical && r.fails run) = true →
      (rs.any fun r => r.critical && r.fails run) = true := any_of_any_current
  have hany : ((current rs).any fun r => r.fails run) = true →
      (rs.any fun r => r.fails run) = true := any_of_any_current
  have hall : (rs.any fun r => r.critical && r.fails run) = true →
      (rs.any fun r => r.fails run) = true := any_fails_of_any_critical
  have hlast : ((current rs).any fun r => r.critical && r.fails run) = true →
      ((current rs).any fun r => r.fails run) = true := any_fails_of_any_critical
  rw [shown_iff_any]
  unfold verdict
  -- from here on only four truth values matter
  generalize (rs.any fun r => r.critical && r.fails run) = critical at *
  generalize (rs.any fun r => r.fails run) = any at *
  generalize ((current rs).any fun r => r.critical && r.fails run) = critical' at *
  generalize ((current rs).any fun r => r.fails run) = any' at *
  cases critical' <;> cases any' <;> cases critical <;> cases any <;> simp_all

/-- After any calls, a run of the checks shows the verdict on all that were registered
exactly when the current ones show its failures. -/
theorem overallStatus_iff (calls : List Call) (run : ℕ) :
    ((performAll calls).runOnce run).registry.overallStatus =
        verdict (registrations calls) run ↔ Shown (registrations calls) run := by
  rw [overallStatus_runOnce (tracks_performAll calls), verdict_current_iff]

/-- A check that always fails, and one that always passes. -/
def refused : ℕ → Outcome := fun _ => ⟨.ok (.error "connection refused"), 0⟩

def answered : ℕ → Outcome := fun _ => ⟨.ok (.ok ()), 0⟩

/-- A critical check that fails is hidden behind a later one of its name. -/
theorem not_overallStatus_registeredTwice :
    ¬ ∀ (calls : List Call) (run : ℕ),
      ((performAll calls).runOnce run).registry.overallStatus =
        verdict (registrations calls) run := by
  intro h
  have hdb := h [.register "db" true refused, .register "db" false answered] 0
  revert hdb
  decide

theorem current_of_distinct {rs : List Registration} (h : (rs.map (·.name)).Nodup) :
    current rs = rs := by
  induction rs with
  | nil => rfl
  | cons r rest ih =>
    obtain ⟨hnew, hrest⟩ := List.nodup_cons.mp h
    have hlast : ¬ rest.any (·.name = r.name) = true := by
      intro hany
      obtain ⟨r', hr', heq⟩ := List.any_eq_true.mp hany
      exact hnew (List.mem_map.mpr ⟨r', hr', of_decide_eq_true heq⟩)
    rw [current, if_neg hlast, ih hrest]

/-- With one registration for each name the status is the verdict. -/
theorem overallStatus_of_distinct {calls : List Call}
    (h : ((registrations calls).map (·.name)).Nodup) (run : ℕ) :
    ((performAll calls).runOnce run).registry.overallStatus =
      verdict (registrations calls) run := by
  rw [overallStatus_runOnce (tracks_performAll calls), current_of_distinct h]

end Verdicts

end SqlServerMcp.HealthChecks
