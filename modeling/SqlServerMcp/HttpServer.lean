import SqlServerMcp.HarnessServer
import SqlServerMcp.LastWrite
import SqlServerMcp.Ranking
import Mathlib.Data.String.Basic

/-!
Requests to a server over HTTP. A request is counted in one step and answered in
another, and the checks run in between, so that requests overlap in any order. What
an answer shows is the state of the moment in which it is made: the requests counted
before it, and the check that was reported last.
-/
namespace SqlServerMcp.HttpServer

open AddressTexts AssocMap ConfigManager ConfigSchema HarnessServer HealthChecks JsonValue
  LastWrite Ranking Runs

abbrev Counters := Map String UInt64

def increment (counters : Counters) (name : String) : Counters :=
  counters.insert name ((counters.get name).getD 0 + 1)

def renderMetrics (counters : Counters) : String :=
  let lines := counters.entries.map fun counter => counter.1 ++ " " ++ toString counter.2.toNat
  "\n".intercalate (sortOn id lines ++ [""])

def requestCounter : String := "http_requests_total"

def statusName : ComponentStatus → String
  | .healthy => "Healthy"
  | .degraded => "Degraded"
  | .unhealthy => "Unhealthy"

/-- A text, or the object of the two members. -/
inductive Body where
  | text (value : String)
  | health (status : String) (components : ℕ)
  deriving DecidableEq

structure Response where
  status : ℕ
  body : Body
  allowOrigin : Option String
  deriving DecidableEq

def healthz (registry : ComponentRegistry) : ℕ × Body :=
  let status := registry.overallStatus
  (if status = .unhealthy then 503 else 200,
    .health (statusName status) registry.states.length)

def metricsHandler (counters : Counters) : ℕ × Body := (200, .text (renderMetrics counters))

section Cors

-- The origin as a header's value, when it can be one.
variable (parseHeader : String → Option String) (corsAllow : Option String)

def setCorsHeader (answer : ℕ × Body) : Response where
  status := answer.1
  body := answer.2
  allowOrigin := corsAllow.bind parseHeader

end Cors

/-- What a request is for: a handler, the service of the protocol, or nothing that
the server has a handler for. -/
inductive Endpoint where
  | healthz
  | metrics
  | mcp
  | unrouted (request : String)
  deriving DecidableEq

/-- What the router does with a request that it has no handler for: the answer, and
whether the counting layer is put around it. -/
structure Routing where
  refusal : String → ℕ × Body
  layered : String → Bool

/-- The requests that are counted: by the handler of the metrics, or by the layer. -/
def Routing.counts (routing : Routing) : Endpoint → Bool
  | .healthz => false
  | .metrics => true
  | .mcp => true
  | .unrouted request => routing.layered request

/-- How far a request has got. A request for the protocol is passed on to the service
behind it. -/
inductive Phase where
  | received (endpoint : Endpoint)
  | counted (endpoint : Endpoint)
  | answered (endpoint : Endpoint) (response : Response)
  | passed

/-- The counters, the health checks and the requests. -/
structure Server where
  counters : Counters
  health : HealthCheckManager
  phase : ℕ → Option Phase

/-- What happens at a server: the steps of its requests, and the runs of its checks. -/
inductive Event where
  | receive (c : ℕ) (endpoint : Endpoint)
  | count (c : ℕ)
  | answer (c : ℕ)
  | pass (c : ℕ)
  | check (run : ℕ)

/-- The server of a process that has just been started. -/
def Server.start (health : HealthCheckManager) : Server where
  counters := Map.empty
  health := health
  phase _ := none

def Server.setPhase (s : Server) (c : ℕ) (phase : Phase) : Server :=
  { s with phase := Function.update s.phase c (some phase) }

section Step

variable (routing : Routing) (parseHeader : String → Option String) (corsAllow : Option String)

/-- What a request is answered with, unless the service behind answers it. -/
def handle (s : Server) : Endpoint → Option (ℕ × Body)
  | .healthz => some (healthz s.health.registry)
  | .metrics => some (metricsHandler s.counters)
  | .mcp => none
  | .unrouted request => some (routing.refusal request)

def respond (s : Server) (c : ℕ) (endpoint : Endpoint) : Option Server :=
  (handle routing s endpoint).map fun answer =>
    s.setPhase c (.answered endpoint (setCorsHeader parseHeader corsAllow answer))

def step (s : Server) : Event → Option Server
  | .receive c endpoint =>
    match s.phase c with
    | none => some (s.setPhase c (.received endpoint))
    | some _ => none
  | .count c =>
    match s.phase c with
    | some (.received endpoint) =>
      if routing.counts endpoint then
        some ({ s with counters := increment s.counters requestCounter }.setPhase c
          (.counted endpoint))
      else none
    | _ => none
  | .answer c =>
    match s.phase c with
    | some (.received endpoint) =>
      if routing.counts endpoint then none
      else respond routing parseHeader corsAllow s c endpoint
    | some (.counted endpoint) => respond routing parseHeader corsAllow s c endpoint
    | _ => none
  | .pass c =>
    match s.phase c with
    | some (.counted .mcp) => some (s.setPhase c .passed)
    | _ => none
  | .check run => some { s with health := s.health.runOnce run }

/-- The phase in which a request is answered. -/
def Routing.ready (routing : Routing) (endpoint : Endpoint) : Phase :=
  if routing.counts endpoint then .counted endpoint else .received endpoint

/-- What a step can do. -/
inductive Moves (s : Server) : Event → Server → Prop
  | receive {c : ℕ} {endpoint : Endpoint} (hphase : s.phase c = none) :
      Moves s (.receive c endpoint) (s.setPhase c (.received endpoint))
  | count {c : ℕ} {endpoint : Endpoint} (hphase : s.phase c = some (.received endpoint))
      (hcounted : routing.counts endpoint = true) :
      Moves s (.count c)
        ({ s with counters := increment s.counters requestCounter }.setPhase c
          (.counted endpoint))
  | answer {c : ℕ} {endpoint : Endpoint} {answer : ℕ × Body}
      (hphase : s.phase c = some (routing.ready endpoint))
      (hhandle : handle routing s endpoint = some answer) :
      Moves s (.answer c)
        (s.setPhase c (.answered endpoint (setCorsHeader parseHeader corsAllow answer)))
  | pass {c : ℕ} (hphase : s.phase c = some (.counted .mcp)) :
      Moves s (.pass c) (s.setPhase c .passed)
  | check {run : ℕ} : Moves s (.check run) { s with health := s.health.runOnce run }

/-- A request is counted only when it is of those that are. -/
def CountedRight (s : Server) : Prop :=
  ∀ c endpoint, s.phase c = some (.counted endpoint) → routing.counts endpoint = true

variable {routing parseHeader corsAllow}

theorem moves_of_respond {s t : Server} {c : ℕ} {endpoint : Endpoint}
    (hphase : s.phase c = some (routing.ready endpoint))
    (h : respond routing parseHeader corsAllow s c endpoint = some t) :
    Moves routing parseHeader corsAllow s (.answer c) t := by
  obtain ⟨answer, hhandle, rfl⟩ := Option.map_eq_some_iff.mp h
  exact .answer hphase hhandle

theorem moves_of_step {s t : Server} {e : Event} (hright : CountedRight routing s)
    (h : step routing parseHeader corsAllow s e = some t) :
    Moves routing parseHeader corsAllow s e t := by
  cases e with
  | receive c endpoint =>
    rw [step] at h
    split at h
    · rename_i hphase
      exact Option.some.inj h ▸ .receive hphase
    · cases h
  | count c =>
    rw [step] at h
    split at h
    · rename_i endpoint hphase
      split at h
      · rename_i hcounted
        exact Option.some.inj h ▸ .count hphase hcounted
      · cases h
    · cases h
  | answer c =>
    rw [step] at h
    split at h
    · rename_i endpoint hphase
      split at h
      · cases h
      · rename_i huncounted
        exact moves_of_respond (by rw [hphase, Routing.ready, if_neg huncounted]) h
    · rename_i endpoint hphase
      exact moves_of_respond (by rw [hphase, Routing.ready, if_pos (hright c endpoint hphase)]) h
    · cases h
  | pass c =>
    rw [step] at h
    split at h
    · rename_i hphase
      exact Option.some.inj h ▸ .pass hphase
    · cases h
  | check run => exact Option.some.inj h ▸ .check

end Step

/-! What a history says. -/

def Event.counted : Event → Option ℕ
  | .count c => some c
  | _ => none

def Event.run : Event → Option ℕ
  | .check run => some run
  | _ => none

/-- The requests counted, in their order. -/
def countedIn (history : List Event) : List ℕ := history.filterMap Event.counted

/-- The check reported last failed or timed out. -/
def storeFails (check : ℕ → Outcome) (history : List Event) : Bool :=
  match latest Event.run history with
  | some run => !(check run).passed
  | none => false

/-- The requests that a number shown to a request stands for: those that came before
and are counted, and all of these that were done with by then. -/
structure Counts (routing : Routing) (before : List Event) (c : ℕ) (requests : List ℕ) :
    Prop where
  nodup : requests.Nodup
  own : c ∈ requests
  received : ∀ d ∈ requests, ∃ endpoint, routing.counts endpoint = true ∧
    Event.receive d endpoint ∈ before
  finished : ∀ d endpoint, routing.counts endpoint = true → Event.receive d endpoint ∈ before →
    Event.answer d ∈ before ∨ Event.pass d ∈ before → d ∈ requests

/-- What the answer to a request shows that is made after a history. -/
inductive Shows (routing : Routing) (check : ℕ → Outcome) (before : List Event) (c : ℕ) :
    Endpoint → ℕ × Body → Prop
  | healthz (hreceived : Event.receive c .healthz ∈ before) :
      Shows routing check before c .healthz
        (if storeFails check before then (503, .health "Unhealthy" 1)
          else (200, .health "Healthy" 1))
  | metrics {requests : List ℕ} (hreceived : Event.receive c .metrics ∈ before)
      (hcounts : Counts routing before c requests) :
      Shows routing check before c .metrics
        (200, .text (requestCounter ++ " " ++ toString (requests.length % 2 ^ 64) ++ "\n"))
  | unrouted {request : String} (hreceived : Event.receive c (.unrouted request) ∈ before) :
      Shows routing check before c (.unrouted request) (routing.refusal request)

def Event.caller : Event → Option ℕ
  | .receive c _ => some c
  | .count c => some c
  | .answer c => some c
  | .pass c => some c
  | .check _ => none

/-- The steps of one request. -/
def own (c : ℕ) (history : List Event) : List Event :=
  history.filter fun e => decide (e.caller = some c)

/-- The steps that bring a request to where it is. -/
inductive Course (routing : Routing) (c : ℕ) : List Event → Option Phase → Prop
  | unknown : Course routing c [] none
  | received {endpoint : Endpoint} :
      Course routing c [.receive c endpoint] (some (.received endpoint))
  | counted {endpoint : Endpoint} (hcounted : routing.counts endpoint = true) :
      Course routing c [.receive c endpoint, .count c] (some (.counted endpoint))
  | answered {endpoint : Endpoint} {response : Response}
      (huncounted : routing.counts endpoint = false) :
      Course routing c [.receive c endpoint, .answer c] (some (.answered endpoint response))
  | countedAnswered {endpoint : Endpoint} {response : Response}
      (hcounted : routing.counts endpoint = true) :
      Course routing c [.receive c endpoint, .count c, .answer c]
        (some (.answered endpoint response))
  | passed : Course routing c [.receive c .mcp, .count c, .pass c] (some .passed)

section Histories

variable (routing : Routing) (check : ℕ → Outcome) (parseHeader : String → Option String)
  (corsAllow : Option String)

/-- The counter of so many requests. -/
def counterEntries : ℕ → List (String × UInt64)
  | 0 => []
  | n + 1 => [(requestCounter, UInt64.ofNat (n + 1))]

/-- The state after a history. -/
structure Tracks (history : List Event) (s : Server) : Prop where
  counters : s.counters.entries = counterEntries (countedIn history).length
  checks : s.health.checks = [⟨"store", check⟩]
  registry : ∃ lastCheckedAt lastError, s.health.registry.entries =
    [("store", ⟨"store", true, if storeFails check history then .unhealthy else .healthy,
      lastCheckedAt, lastError⟩)]
  courses : ∀ c, Course routing c (own c history) (s.phase c)
  nodup : (countedIn history).Nodup
  answered : ∀ c endpoint response, s.phase c = some (.answered endpoint response) →
    ∃ before after answer, history = before ++ .answer c :: after ∧
      Shows routing check before c endpoint answer ∧
      response = setCorsHeader parseHeader corsAllow answer

theorem storeFails_concat (history : List Event) (e : Event) :
    storeFails check (history ++ [e]) =
      match e.run with
      | some run => !(check run).passed
      | none => storeFails check history := by
  rw [storeFails, latest_concat]
  cases e <;> rfl

theorem countedIn_concat (history : List Event) (e : Event) :
    countedIn (history ++ [e]) = countedIn history ++ e.counted.toList := by
  rw [countedIn, List.filterMap_append, countedIn]
  cases e <;> rfl

theorem tracks_start : Tracks routing check parseHeader corsAllow []
    (Server.start (HealthCheckManager.new.register "store" true check)) where
  counters := rfl
  checks := rfl
  registry := ⟨none, none, rfl⟩
  courses _ := .unknown
  nodup := List.nodup_nil
  answered _ _ _ h := nomatch h

theorem entries_increment {counters : Counters} {n : ℕ}
    (h : counters.entries = counterEntries n) :
    (increment counters requestCounter).entries = counterEntries (n + 1) := by
  have hentries : (increment counters requestCounter).entries = AssocMap.insert counters.entries
      requestCounter ((counters.entries.lookup requestCounter).getD 0 + 1) := rfl
  rw [hentries, h]
  cases n with
  | zero => rfl
  | succ n =>
    simp only [counterEntries, List.lookup_cons_self, Option.getD_some, AssocMap.insert, if_true]
    rw [UInt64.ofNat_add (n + 1) 1]
    rfl

theorem intercalate_line (line : String) :
    "\n".intercalate (sortOn id [line] ++ [""]) = line ++ "\n" := by
  rw [show sortOn id [line] ++ [""] = [line, ""] from rfl]
  apply String.toList_injective
  simp

theorem renderMetrics_of_entries {counters : Counters} {n : ℕ}
    (h : counters.entries = counterEntries n) (hn : 0 < n) :
    renderMetrics counters = requestCounter ++ " " ++ toString (n % 2 ^ 64) ++ "\n" := by
  cases n with
  | zero => contradiction
  | succ n =>
    rw [renderMetrics, h]
    simp only [counterEntries, List.map_cons, List.map_nil, UInt64.toNat_ofNat']
    exact intercalate_line _

theorem healthz_of_entries {registry : ComponentRegistry} {fails : Bool}
    {lastCheckedAt : Option ℕ} {lastError : Option String}
    (h : registry.entries = [("store", ⟨"store", true, if fails then .unhealthy else .healthy,
      lastCheckedAt, lastError⟩)]) :
    healthz registry = if fails then (503, .health "Unhealthy" 1)
      else (200, .health "Healthy" 1) := by
  rw [healthz, ComponentRegistry.overallStatus, ComponentRegistry.states, h]
  cases fails <;> rfl

/-- The check of the store is the only one, and its outcome is reported. -/
theorem registry_runOnce {manager : HealthCheckManager} {run : ℕ} {state : ComponentState}
    (hchecks : manager.checks = [⟨"store", check⟩])
    (hentries : manager.registry.entries = [("store", state)]) (hcritical : state.critical = true) :
    (manager.runOnce run).registry.entries =
      [("store", ⟨"store", true, if !(check run).passed then .unhealthy else .healthy,
        some (check run).finishedAt, (check run).error⟩)] := by
  have hregistry : (manager.runOnce run).registry =
      manager.registry.report "store" (check run).status (check run).error
        (check run).finishedAt := by
    rw [HealthCheckManager.runOnce, hchecks]
    rfl
  have hget : manager.registry.get "store" = some state := by
    rw [show manager.registry.get "store" = manager.registry.entries.lookup "store" from rfl,
      hentries]
    rfl
  rw [hregistry, ComponentRegistry.report, hget, status_eq]
  simp only [Option.map_some, Option.getD_some, hcritical]
  rw [show (manager.registry.insert "store" _).entries =
    AssocMap.insert manager.registry.entries "store" _ from rfl, hentries]
  cases (check run).passed <;> rfl

theorem own_concat (c : ℕ) (history : List Event) (e : Event) :
    own c (history ++ [e]) =
      if e.caller = some c then own c history ++ [e] else own c history := by
  rw [own, List.filter_append, List.filter_cons, List.filter_nil]
  by_cases he : e.caller = some c
  · simp [own, he]
  · simp [own, he]

theorem mem_own_iff {c : ℕ} {history : List Event} {e : Event} (he : e.caller = some c) :
    e ∈ own c history ↔ e ∈ history := by
  simp [own, he]

theorem mem_countedIn_iff (c : ℕ) (history : List Event) :
    c ∈ countedIn history ↔ Event.count c ∈ own c history := by
  rw [mem_own_iff rfl, countedIn, List.mem_filterMap]
  constructor
  · rintro ⟨e, he, hc⟩
    cases e with
    | count d =>
      obtain rfl := Option.some.inj hc
      exact he
    | _ => cases hc
  · exact fun h => ⟨.count c, h, rfl⟩

theorem run_of_caller {e : Event} {c : ℕ} (h : e.caller = some c) : e.run = none := by
  cases e with
  | check => cases h
  | _ => rfl

variable {routing check parseHeader corsAllow} {history : List Event} {s : Server} {c : ℕ}

/-- A request moves on, and the others stay. -/
theorem Tracks.request (h : Tracks routing check parseHeader corsAllow history s) {e : Event}
    {phase : Phase} {counters : Counters} (he : e.caller = some c)
    (hcourse : Course routing c (own c history ++ [e]) (some phase))
    (hcounters : counters.entries = counterEntries (countedIn (history ++ [e])).length)
    (hnodup : (countedIn (history ++ [e])).Nodup)
    (hanswer : ∀ endpoint response, phase = .answered endpoint response →
      e = .answer c ∧ ∃ answer, Shows routing check history c endpoint answer ∧
        response = setCorsHeader parseHeader corsAllow answer) :
    Tracks routing check parseHeader corsAllow (history ++ [e])
      ({ s with counters := counters }.setPhase c phase) where
  counters := hcounters
  checks := h.checks
  registry := by
    rw [storeFails_concat, run_of_caller he]
    exact h.registry
  courses d := by
    rw [own_concat, he]
    by_cases hd : d = c
    · rw [hd, if_pos rfl]
      simpa [Server.setPhase] using hcourse
    · rw [if_neg fun heq => hd (Option.some.inj heq).symm]
      simpa [Server.setPhase, Function.update, hd] using h.courses d
  nodup := hnodup
  answered d endpoint response hphase := by
    by_cases hd : d = c
    · subst hd
      have hnew : some phase = some (.answered endpoint response) := by
        simpa [Server.setPhase] using hphase
      obtain ⟨rfl, answer, hshows, hresponse⟩ := hanswer endpoint response (Option.some.inj hnew)
      exact ⟨history, [], answer, rfl, hshows, hresponse⟩
    · have hold : s.phase d = some (.answered endpoint response) := by
        simpa [Server.setPhase, Function.update, hd] using hphase
      obtain ⟨before, after, answer, rfl, hrest⟩ := h.answered d endpoint response hold
      exact ⟨before, after ++ [e], answer, by simp, hrest⟩

theorem Tracks.received (h : Tracks routing check parseHeader corsAllow history s)
    {endpoint : Endpoint} (hphase : s.phase c = some (.received endpoint)) :
    own c history = [.receive c endpoint] := by
  have hcourse := h.courses c
  rw [hphase] at hcourse
  generalize own c history = steps at hcourse
  cases hcourse
  rfl

theorem Tracks.countedOnce (h : Tracks routing check parseHeader corsAllow history s)
    {endpoint : Endpoint} (hphase : s.phase c = some (.counted endpoint)) :
    own c history = [.receive c endpoint, .count c] ∧ routing.counts endpoint = true := by
  have hcourse := h.courses c
  rw [hphase] at hcourse
  generalize own c history = steps at hcourse
  cases hcourse with
  | counted hcounted => exact ⟨rfl, hcounted⟩

theorem Tracks.countedRight (h : Tracks routing check parseHeader corsAllow history s) :
    CountedRight routing s := fun _ _ hphase => (h.countedOnce hphase).2

theorem received_of_countedIn (h : Tracks routing check parseHeader corsAllow history s) {d : ℕ}
    (hd : d ∈ countedIn history) :
    ∃ endpoint, routing.counts endpoint = true ∧ Event.receive d endpoint ∈ history := by
  have hcourse := h.courses d
  rw [mem_countedIn_iff] at hd
  have hown : ∀ endpoint, Event.receive d endpoint ∈ history ↔
      Event.receive d endpoint ∈ own d history := fun _ => (mem_own_iff rfl).symm
  simp only [hown]
  generalize own d history = steps at hcourse hd ⊢
  generalize s.phase d = phase at hcourse
  cases hcourse with
  | counted hcounted => exact ⟨_, hcounted, List.mem_cons_self⟩
  | countedAnswered hcounted => exact ⟨_, hcounted, List.mem_cons_self⟩
  | passed => exact ⟨.mcp, rfl, List.mem_cons_self⟩
  | _ => simp at hd

theorem countedIn_of_finished (h : Tracks routing check parseHeader corsAllow history s) {d : ℕ}
    {endpoint : Endpoint} (hcounts : routing.counts endpoint = true)
    (hreceived : Event.receive d endpoint ∈ history)
    (hfinished : Event.answer d ∈ history ∨ Event.pass d ∈ history) : d ∈ countedIn history := by
  have hcourse := h.courses d
  rw [mem_countedIn_iff]
  rw [← mem_own_iff (c := d) rfl] at hreceived
  rw [← mem_own_iff (c := d) (e := .answer d) rfl, ← mem_own_iff (c := d) (e := .pass d) rfl]
    at hfinished
  generalize own d history = steps at hcourse hreceived hfinished ⊢
  generalize s.phase d = phase at hcourse
  cases hcourse with
  | answered huncounted =>
    simp only [List.mem_cons, Event.receive.injEq, reduceCtorEq, List.not_mem_nil, or_false,
      true_and] at hreceived
    rw [← hreceived, hcounts] at huncounted
    contradiction
  | _ => simp at hfinished ⊢

theorem counts_of_counted (h : Tracks routing check parseHeader corsAllow history s)
    {endpoint : Endpoint} (hphase : s.phase c = some (.counted endpoint)) :
    Counts routing history c (countedIn history) where
  nodup := h.nodup
  own := (mem_countedIn_iff c history).mpr (by simp [(h.countedOnce hphase).1])
  received _ hd := received_of_countedIn h hd
  finished _ _ hcounts hreceived hfinished := countedIn_of_finished h hcounts hreceived hfinished

/-- A request that is answered has been received, and counted where it is to be. -/
theorem Tracks.ready (h : Tracks routing check parseHeader corsAllow history s)
    {endpoint : Endpoint} {response : Response}
    (hphase : s.phase c = some (routing.ready endpoint)) :
    Event.receive c endpoint ∈ history ∧
      Course routing c (own c history ++ [.answer c]) (some (.answered endpoint response)) := by
  rw [← mem_own_iff (c := c) rfl]
  cases hcounts : routing.counts endpoint with
  | true =>
    rw [Routing.ready, if_pos hcounts] at hphase
    rw [(h.countedOnce hphase).1]
    exact ⟨List.mem_cons_self, .countedAnswered hcounts⟩
  | false =>
    rw [Routing.ready, if_neg (by rw [hcounts]; decide)] at hphase
    rw [h.received hphase]
    exact ⟨List.mem_cons_self, .answered hcounts⟩

theorem Tracks.shows (h : Tracks routing check parseHeader corsAllow history s)
    {endpoint : Endpoint} {answer : ℕ × Body}
    (hphase : s.phase c = some (routing.ready endpoint))
    (hreceived : Event.receive c endpoint ∈ history)
    (hhandle : handle routing s endpoint = some answer) :
    Shows routing check history c endpoint answer := by
  cases endpoint with
  | healthz =>
    obtain rfl := Option.some.inj hhandle
    obtain ⟨lastCheckedAt, lastError, hentries⟩ := h.registry
    rw [healthz_of_entries hentries]
    exact .healthz hreceived
  | metrics =>
    obtain rfl := Option.some.inj hhandle
    have hcounts := counts_of_counted h hphase
    rw [metricsHandler, renderMetrics_of_entries h.counters (List.length_pos_of_mem hcounts.own)]
    exact .metrics hreceived hcounts
  | mcp => cases hhandle
  | unrouted request =>
    obtain rfl := Option.some.inj hhandle
    exact .unrouted hreceived

theorem Tracks.step {t : Server} {e : Event}
    (h : Tracks routing check parseHeader corsAllow history s)
    (hmoves : Moves routing parseHeader corsAllow s e t) :
    Tracks routing check parseHeader corsAllow (history ++ [e]) t := by
  have hquiet : e.counted = none → countedIn (history ++ [e]) = countedIn history := by
    intro he
    rw [countedIn_concat, he]
    exact List.append_nil _
  cases hmoves with
  | @receive c endpoint hphase =>
    have hcourse := h.courses c
    rw [hphase] at hcourse
    generalize hsteps : own c history = steps at hcourse
    cases hcourse
    refine h.request rfl ?_ (hquiet rfl ▸ h.counters) (hquiet rfl ▸ h.nodup) nofun
    rw [hsteps]
    exact .received
  | @count c endpoint hphase hcounted =>
    have hsteps := h.received hphase
    have hlist : countedIn (history ++ [.count c]) = countedIn history ++ [c] :=
      countedIn_concat history _
    have hfresh : c ∉ countedIn history := by
      rw [mem_countedIn_iff, hsteps]
      simp
    refine h.request rfl ?_ ?_ ?_ nofun
    · rw [hsteps]
      exact .counted hcounted
    · rw [hlist, List.length_append]
      exact entries_increment h.counters
    · rw [hlist]
      exact h.nodup.append (List.nodup_singleton c) (by simpa using hfresh)
  | @answer c endpoint answer hphase hhandle =>
    obtain ⟨hreceived, hcourse⟩ := h.ready hphase
    refine h.request rfl hcourse (hquiet rfl ▸ h.counters) (hquiet rfl ▸ h.nodup) ?_
    intro endpoint' response heq
    obtain ⟨rfl, rfl⟩ := Phase.answered.inj heq
    exact ⟨rfl, answer, h.shows hphase hreceived hhandle, rfl⟩
  | @pass c hphase =>
    refine h.request rfl ?_ (hquiet rfl ▸ h.counters) (hquiet rfl ▸ h.nodup) nofun
    rw [(h.countedOnce hphase).1]
    exact .passed
  | @check run =>
    obtain ⟨lastCheckedAt, lastError, hentries⟩ := h.registry
    refine ⟨hquiet rfl ▸ h.counters, h.checks, ?_, ?_, hquiet rfl ▸ h.nodup, ?_⟩
    · rw [storeFails_concat]
      exact ⟨_, _, registry_runOnce check h.checks hentries rfl⟩
    · intro d
      rw [own_concat, if_neg nofun]
      exact h.courses d
    · intro d endpoint response hphase
      obtain ⟨before, after, answer, rfl, hrest⟩ := h.answered d endpoint response hphase
      exact ⟨before, after ++ [.check run], answer, by simp, hrest⟩

theorem tracks_of_run {events : List Event}
    (h : run (HttpServer.step routing parseHeader corsAllow)
      (Server.start (HealthCheckManager.new.register "store" true check)) events = some s) :
    Tracks routing check parseHeader corsAllow events s := by
  induction events using List.reverseRecOn generalizing s with
  | nil =>
    obtain rfl := Option.some.inj h
    exact tracks_start routing check parseHeader corsAllow
  | append_singleton events e ih =>
    obtain ⟨t, ht, hstep⟩ := run_concat_eq_some_iff.mp h
    exact (ih ht).step (moves_of_step (ih ht).countedRight hstep)

end Histories

section Answers

variable {yamlMapping : String → Option JsonMap}
  {resolveStorePath : String → Except String String} {openStore : String → ℕ → Outcome}
  {listen : SocketAddr → Except String Unit} {sources : Sources} {command : Command}

/-- Every answer of a server shows the moment in which it is made: the check of the
store that was reported last, and the requests counted, none of them lost and none
counted twice. Requests without a route are among these where the router puts the
counting layer around them. -/
theorem answers_of_run {p : Process} {addr : SocketAddr} {allowedHosts : List String}
    {corsAllow : Option String} {routing : Routing} {parseHeader : String → Option String}
    {events : List Event} {s : Server}
    (hmain : main yamlMapping resolveStorePath openStore listen sources command = .ok p)
    (hserving : p.serving = .http addr allowedHosts corsAllow)
    (h : run (step routing parseHeader corsAllow) (Server.start p.health) events = some s) :
    ∃ path, resolveStorePath p.config.apiVersion = .ok path ∧
      corsAllow = p.config.corsAllow ∧
      ∀ c endpoint response, s.phase c = some (.answered endpoint response) →
        ∃ before after answer, events = before ++ .answer c :: after ∧
          Shows routing (openStore path) before c endpoint answer ∧
          response = setCorsHeader parseHeader corsAllow answer := by
  have hstarted := started_of_main hmain
  obtain ⟨path, hpath, hhealth⟩ := hstarted.store
  refine ⟨path, hpath, ?_, ?_⟩
  · have hserves := hstarted.serves
    rw [hserving] at hserves
    cases hserves
    rfl
  · rw [hhealth] at h
    exact (tracks_of_run h).answered

end Answers

/-! Requests that overlap with a check that fails. -/

def serverEnv : Map String String :=
  (Map.empty.insert "SQLSERVER_URL" "localhost").insert "SQLSERVER_AUTH_METHOD" "sql_server"

def serverSources : Sources := ⟨serverEnv, none, none, none, none⟩

/-- A router with an answer of its own, which is counted. -/
def notFound : Routing := ⟨fun _ => (404, .text ""), fun _ => true⟩

def overlapping : List Event :=
  [.receive 0 .mcp, .receive 1 .metrics, .receive 3 (.unrouted "GET /"), .count 0, .count 3,
    .count 1, .receive 2 .healthz, .answer 3, .check 0, .answer 1, .pass 0, .answer 2]

def serverProcess : Process where
  config := { Config.ofRequired "localhost" .sqlServer with
    transport := .http, corsAllow := some "*" }
  logsToStdout := true
  health := HealthCheckManager.new.register "store" true refused
  serving := .http
    ⟨.v4 "127.0.0.1".toList ⟨127, 0, 0, 1, rfl⟩, defaultPort⟩
    ["localhost", "127.0.0.1", "::1", "127.0.0.1", "127.0.0.1:3000"] (some "*")

theorem serverProcess_started :
    main (fun _ => none) (fun _ => .ok "mcp_store.db") (fun _ => refused) (fun _ => .ok ())
      serverSources (.http none none (some "*")) = .ok serverProcess := by
  rfl

theorem answers_of_run_overlapping :
    ∃ before after answer, overlapping = before ++ .answer 1 :: after ∧
      Shows notFound refused before 1 .metrics answer ∧
      setCorsHeader some (some "*") (200, .text "http_requests_total 3\n") =
        setCorsHeader some (some "*") answer := by
  obtain ⟨path, -, -, hanswers⟩ := answers_of_run
    (s := (run (step notFound some (some "*")) (Server.start serverProcess.health)
      overlapping).get rfl)
    serverProcess_started rfl (Option.some_get _).symm
  exact hanswers 1 .metrics _ rfl

end SqlServerMcp.HttpServer
