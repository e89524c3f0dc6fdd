import SqlServerMcp.AuthManager
import SqlServerMcp.CallTool
import SqlServerMcp.CriticalSections
import SqlServerMcp.StatementForms

/-!
Calls of the `call` tool by any number of sessions. They share the pools, the
validators and one auth manager; a call holds the lock of the auth manager from
the check of its arguments to the check of its response, and waits for its
surroundings in between. So the calls are served one after another, whatever the
order in which the sessions are scheduled.
-/
namespace SqlServerMcp.ToolCalls

open ApiClient AssocMap AuthManager AuthStrategies CallTool ConfigSchema CriticalSections
  JsonValue Runs SqlPool SqlValue Validator

/-- What the surroundings answer to a call, each of them asked at most once. -/
structure Replies where
  world : World
  buildPool : Except Fault Unit
  getConnection : Except String Unit
  firstResult : Except DriverError (List Row)

/-- A call that has found its operation and goes for the lock. -/
structure Invocation where
  endpoint : EndpointRecord
  operationId : String
  args : Json
  replies : Replies

/-- What the calls share, and what has gone out for them so far. -/
structure Server where
  process : Process
  manager : Manager
  sent : List (ℕ × Action)

def Server.new (build : Build) (config : Config) : Server :=
  ⟨Process.initial, Manager.new build config.authMethod, []⟩

/-- Where a call waits. -/
inductive Stage where
  | looked
  | validated
  | prepared (sql : String) (bound : List BoundParam)
  | authenticated (sql : String) (bound : List BoundParam) (auth : SqlPool.TdsAuth)
  | pooled (sql : String) (bound : List BoundParam) (pool : Pool)
  | connected (sql : String) (bound : List BoundParam) (pool : Pool)
  | responded (response : Json)
  | done (result : Except CallError Json)

structure Position where
  caller : ℕ
  call : Invocation
  stage : Stage

def Position.start (calls : ℕ → Invocation) (caller : ℕ) : Position :=
  ⟨caller, calls caller, .looked⟩

def Position.fail (position : Position) (fault : Fault) : Position :=
  { position with stage := .done (.error (.fault fault)) }

def Position.finished (position : Position) : Bool :=
  match position.stage with
  | .done _ => true
  | _ => false

def Server.send (server : Server) (caller : ℕ) (action : Action) : Server :=
  { server with sent := server.sent ++ [(caller, action)] }

def driverAuth : AuthManager.TdsAuth → SqlPool.TdsAuth
  | .sqlServer username password => .sqlServer username password
  | .windows username password => .windows username password
  | .aadToken token => .aadToken token

/-- The answer of `resolve_tds_auth` as a call gets it. -/
def authAnswer : Except AuthError AuthManager.TdsAuth → Except Fault SqlPool.TdsAuth
  | .ok auth => .ok (driverAuth auth)
  | .error err => .error err.fault

section Calls

variable (build : Build) (compiler : SchemaCompiler) (lib : Libraries)
variable (resolvedSchemasFor : String → String → Option (Json × Json)) (config : Config)

/-- A call goes on from where it waits to where it waits next. -/
def advance (server : Server) (position : Position) (_ : Unit) : Option (Server × Position) :=
  let call := position.call
  match position.stage with
  | .looked =>
    let checked := validateInput compiler resolvedSchemasFor server.process.inputValidators
      config.apiVersion call.operationId call.args
    let server := { server with process := { server.process with inputValidators := checked.2 } }
    match checked.1 with
    | .error err => some (server, { position with stage := .done (.error (.mcpify err)) })
    | .ok () => some (server, { position with stage := .validated })
  | .validated =>
    match prepare lib resolvedSchemasFor config call.endpoint call.args with
    | .error fault => some (server, position.fail fault)
    | .ok (sql, bound) => some (server, { position with stage := .prepared sql bound })
  | .prepared sql bound =>
    let resolved := resolveTdsAuth build server.manager call.replies.world
    let server := { server.send position.caller .resolveTdsAuth with manager := resolved.2 }
    match authAnswer resolved.1 with
    | .error fault => some (server, position.fail fault)
    | .ok auth => some (server, { position with stage := .authenticated sql bound auth })
  | .authenticated sql bound auth =>
    let cached := cachedPool server.process.pools (poolKey config) (tdsConfig config auth)
      config.poolMaxSize call.replies.buildPool
    let server := { server with process := { server.process with pools := cached.2 } }
    match cached.1 with
    | .error fault => some (server, position.fail fault)
    | .ok pool => some (server, { position with stage := .pooled sql bound pool })
  | .pooled sql bound pool =>
    let server := server.send position.caller (.getConnection pool)
    match call.replies.getConnection with
    | .error err => some (server, position.fail (.error
        ("failed to obtain a pooled SQL Server connection: " ++ err)))
    | .ok () => some (server, { position with stage := .connected sql bound pool })
  | .connected sql bound pool =>
    let server := server.send position.caller (.query pool sql bound)
    match call.replies.firstResult with
    | .error err => some (server, position.fail (classifyTiberiusError err))
    | .ok rows =>
      match jsonRows lib rows with
      | .error fault => some (server, position.fail fault)
      | .ok response => some (server, { position with stage := .responded response })
  | .responded response =>
    -- a response that does not meet its schema is logged and returned as it is
    let checked := validateOutput compiler resolvedSchemasFor server.process.outputValidators
      config.apiVersion call.operationId response
    some ({ server with process := { server.process with outputValidators := checked.2 } },
      { position with stage := .done (.ok response) })
  | .done _ => none

/-- The call with nobody else around: `call_operation` in one go, with the
credentials that the auth manager resolves. -/
def serveCall (server : Server) (caller : ℕ) (call : Invocation) : Server × Except CallError Json :=
  let resolved := resolveTdsAuth build server.manager call.replies.world
  let outcome := callOperation compiler lib resolvedSchemasFor config server.process
    ⟨call.endpoint, call.operationId, call.args,
      ⟨authAnswer resolved.1, call.replies.buildPool, call.replies.getConnection,
        call.replies.firstResult⟩⟩
  ({ process := outcome.process
     manager := if outcome.actions.isEmpty then server.manager else resolved.2
     sent := server.sent ++ outcome.actions.map fun action => (caller, action) },
    outcome.result)

/-- A call that is let go on until it is done, or for so many steps. -/
def goOn : ℕ → Server × Position → Server × Position
  | 0, at_ => at_
  | steps + 1, at_ =>
    match advance build compiler lib resolvedSchemasFor config at_.1 at_.2 () with
    | none => at_
    | some next => goOn steps next

variable {build compiler lib resolvedSchemasFor config}

theorem goOn_of_advance {at_ next : Server × Position}
    (h : advance build compiler lib resolvedSchemasFor config at_.1 at_.2 () = some next)
    (steps : ℕ) :
    goOn build compiler lib resolvedSchemasFor config (steps + 1) at_ =
      goOn build compiler lib resolvedSchemasFor config steps next := by
  rw [goOn, h]

/-- A call that is done stays as it is. -/
theorem goOn_done (server : Server) (caller : ℕ) (call : Invocation)
    (result : Except CallError Json) :
    ∀ steps, goOn build compiler lib resolvedSchemasFor config steps
      (server, ⟨caller, call, .done result⟩) = (server, ⟨caller, call, .done result⟩)
  | 0 => rfl
  | _ + 1 => rfl

/-- What is left of a call once its statement is prepared: the rest of `execute`
and the check of the response. -/
theorem goOn_prepared (server : Server) (caller : ℕ) (call : Invocation) {sql : String}
    {bound : List BoundParam}
    (hprepare : prepare lib resolvedSchemasFor config call.endpoint call.args = .ok (sql, bound)) :
    let resolved := resolveTdsAuth build server.manager call.replies.world
    let outcome := execute lib resolvedSchemasFor config call.endpoint call.args
      ⟨authAnswer resolved.1, call.replies.buildPool, call.replies.getConnection,
        call.replies.firstResult⟩ server.process.pools
    goOn build compiler lib resolvedSchemasFor config 5
        (server, ⟨caller, call, .prepared sql bound⟩) =
      match outcome.result with
      | .error fault =>
        (⟨{ server.process with pools := outcome.pools }, resolved.2,
            server.sent ++ outcome.actions.map fun action => (caller, action)⟩,
          ⟨caller, call, .done (.error (.fault fault))⟩)
      | .ok response =>
        (⟨⟨outcome.pools, server.process.inputValidators,
              (validateOutput compiler resolvedSchemasFor server.process.outputValidators
                config.apiVersion call.operationId response).2⟩, resolved.2,
            server.sent ++ outcome.actions.map fun action => (caller, action)⟩,
          ⟨caller, call, .done (.ok response)⟩) := by
  intro resolved outcome
  have houtcome : outcome = execute lib resolvedSchemasFor config call.endpoint call.args
      ⟨authAnswer resolved.1, call.replies.buildPool, call.replies.getConnection,
        call.replies.firstResult⟩ server.process.pools := rfl
  clear_value outcome
  simp only [execute, hprepare] at houtcome
  cases hauth : authAnswer resolved.1 with
  | error fault =>
    rw [hauth] at houtcome
    rw [goOn_of_advance (by simp only [advance, resolved, hauth]; rfl), houtcome]
    exact goOn_done ..
  | ok auth =>
    simp only [hauth] at houtcome
    rw [goOn_of_advance (by simp only [advance, resolved, hauth]; rfl)]
    cases hcached : cachedPool server.process.pools (poolKey config) (tdsConfig config auth)
        config.poolMaxSize call.replies.buildPool with
    | mk built pools =>
      simp only [hcached] at houtcome
      cases built with
      | error fault =>
        rw [goOn_of_advance (by simp only [advance, Server.send, hcached]; rfl), houtcome]
        exact goOn_done ..
      | ok pool =>
        rw [goOn_of_advance (by simp only [advance, Server.send, hcached]; rfl)]
        cases hconnection : call.replies.getConnection with
        | error err =>
          simp only [hconnection] at houtcome
          rw [goOn_of_advance (by simp only [advance, hconnection]; rfl), houtcome]
          simp [goOn_done, Position.fail, Server.send, resolved]
        | ok _ =>
          simp only [hconnection] at houtcome
          rw [goOn_of_advance (by simp only [advance, hconnection]; rfl)]
          cases hrows : call.replies.firstResult with
          | error err =>
            simp only [hrows] at houtcome
            rw [goOn_of_advance (by simp only [advance, hrows]; rfl), houtcome]
            simp [goOn_done, Position.fail, Server.send, resolved]
          | ok rows =>
            simp only [hrows] at houtcome
            cases hjson : jsonRows lib rows with
            | error fault =>
              rw [goOn_of_advance (by simp only [advance, hrows, hjson]; rfl), houtcome, hjson]
              simp [goOn_done, Position.fail, Server.send, resolved]
            | ok response =>
              rw [goOn_of_advance (by simp only [advance, hrows, hjson]; rfl), houtcome, hjson]
              simp [goOn, advance, Server.send, resolved]

/-- Seven steps are enough for a call, and they are `call_operation`. -/
theorem goOn_start (server : Server) (calls : ℕ → Invocation) (caller : ℕ) :
    goOn build compiler lib resolvedSchemasFor config 7 (server, .start calls caller) =
      ((serveCall build compiler lib resolvedSchemasFor config server caller (calls caller)).1,
        ⟨caller, calls caller,
          .done (serveCall build compiler lib resolvedSchemasFor config server caller
            (calls caller)).2⟩) := by
  generalize hcall : calls caller = call
  cases hvalid : validateInput compiler resolvedSchemasFor server.process.inputValidators
      config.apiVersion call.operationId call.args with
  | mk checked validators =>
    cases checked with
    | error err =>
      rw [goOn_of_advance (by simp only [advance, Position.start, hcall, hvalid]; rfl), goOn_done]
      simp [serveCall, callOperation, hvalid]
    | ok _ =>
      rw [goOn_of_advance (by simp only [advance, Position.start, hcall, hvalid]; rfl)]
      cases hprepare : prepare lib resolvedSchemasFor config call.endpoint call.args with
      | error fault =>
        rw [goOn_of_advance (by simp only [advance, hprepare]; rfl)]
        simp [serveCall, callOperation, hvalid, execute_of_prepare_error _ _ hprepare, goOn_done,
          Position.fail]
      | ok statement =>
        rw [goOn_of_advance (by simp only [advance, hprepare]; rfl), goOn_prepared _ _ _ hprepare]
        simp only [serveCall, callOperation, hvalid]
        cases (execute lib resolvedSchemasFor config call.endpoint call.args
            ⟨authAnswer (resolveTdsAuth build server.manager call.replies.world).1,
              call.replies.buildPool, call.replies.getConnection, call.replies.firstResult⟩
            server.process.pools).result with
        | error fault => simp [actions_ne_nil_of_prepare lib resolvedSchemasFor hprepare]
        | ok response => simp [actions_ne_nil_of_prepare lib resolvedSchemasFor hprepare]

theorem goOn_add (steps steps' : ℕ) (at_ : Server × Position) :
    goOn build compiler lib resolvedSchemasFor config (steps + steps') at_ =
      goOn build compiler lib resolvedSchemasFor config steps'
        (goOn build compiler lib resolvedSchemasFor config steps at_) := by
  induction steps generalizing at_ with
  | zero => rw [Nat.zero_add, goOn]
  | succ steps ih =>
    rw [Nat.succ_add]
    cases hadvance : advance build compiler lib resolvedSchemasFor config at_.1 at_.2 () with
    | some next => rw [goOn_of_advance hadvance, goOn_of_advance hadvance, ih]
    | none =>
      have hstuck : ∀ steps, goOn build compiler lib resolvedSchemasFor config steps at_ = at_ := by
        intro steps
        cases steps with
        | zero => rfl
        | succ steps => rw [goOn, hadvance]
      rw [hstuck, hstuck, hstuck]

theorem goOn_of_run {inputs : List Unit} {at_ last : Server × Position}
    (h : run (fun at_ input =>
        advance build compiler lib resolvedSchemasFor config at_.1 at_.2 input)
      at_ inputs = some last) :
    goOn build compiler lib resolvedSchemasFor config inputs.length at_ = last := by
  induction inputs generalizing at_ with
  | nil => exact Option.some.inj h
  | cons input rest ih =>
    obtain ⟨next, hnext, hrest⟩ := exists_step_of_run h
    rw [List.length_cons, goOn_of_advance hnext]
    exact ih hrest

/-- A section that comes to its end is the call in one go. -/
theorem serveCall_of_runSection {calls : ℕ → Invocation} {server server' : Server}
    {sec : Section ℕ Unit} {position : Position}
    (h : runSection (Position.start calls) (advance build compiler lib resolvedSchemasFor config)
      server sec = some (server', position)) (hfinished : position.finished = true) :
    let served := serveCall build compiler lib resolvedSchemasFor config server sec.caller
      (calls sec.caller)
    server' = served.1 ∧ position.stage = .done served.2 := by
  intro served
  have hlast := goOn_of_run h
  have hdone : ∀ steps, goOn build compiler lib resolvedSchemasFor config steps
      (server', position) = (server', position) := by
    obtain ⟨caller, call, stage⟩ := position
    cases stage with
    | done result => exact goOn_done server' caller call result
    | looked | validated | prepared | authenticated | pooled | connected | responded =>
      exact absurd hfinished Bool.false_ne_true
  have hserved : (server', position) = (served.1, ⟨sec.caller, calls sec.caller, .done served.2⟩) :=
    calc (server', position)
        = goOn build compiler lib resolvedSchemasFor config (sec.inputs.length + 7)
            (server, .start calls sec.caller) := by rw [goOn_add, hlast, hdone]
      _ = goOn build compiler lib resolvedSchemasFor config (7 + sec.inputs.length)
            (server, .start calls sec.caller) := by rw [Nat.add_comm]
      _ = _ := by rw [goOn_add, goOn_start, goOn_done]
  exact ⟨congrArg Prod.fst hserved, congrArg (fun at_ => at_.2.stage) hserved⟩

/-- What a call sends, up to the point where it ends or is dropped. -/
inductive CallActions : List Action → Prop
  | nothing : CallActions []
  | authentication : CallActions [.resolveTdsAuth]
  | connection (pool : Pool) : CallActions [.resolveTdsAuth, .getConnection pool]
  | query (pool : Pool) (sql : String) (bound : List BoundParam) :
      CallActions [.resolveTdsAuth, .getConnection pool, .query pool sql bound]

/-- What has gone out for a call by the time that it waits at a stage. -/
def ActionsAt : Stage → List Action → Prop
  | .looked, actions | .validated, actions | .prepared _ _, actions => actions = []
  | .authenticated _ _ _, actions | .pooled _ _ _, actions => actions = [.resolveTdsAuth]
  | .connected _ _ pool, actions => actions = [.resolveTdsAuth, .getConnection pool]
  | .responded _, actions | .done _, actions => CallActions actions

theorem ActionsAt.callActions {stage : Stage} {actions : List Action}
    (h : ActionsAt stage actions) : CallActions actions := by
  cases stage with
  | looked | validated | prepared => exact h ▸ .nothing
  | authenticated | pooled => exact h ▸ .authentication
  | connected sql bound pool => exact h ▸ .connection pool
  | responded | done => exact h

/-- The call has sent what its stage says, and nobody else has sent anything. -/
def SentSince (server₀ server : Server) (position : Position) : Prop :=
  ∃ actions, server.sent = server₀.sent ++ actions.map (fun a => (position.caller, a)) ∧
    ActionsAt position.stage actions

theorem SentSince.advance {server₀ server server' : Server} {position position' : Position}
    (h : SentSince server₀ server position)
    (hadvance : advance build compiler lib resolvedSchemasFor config server position () =
      some (server', position')) :
    position'.caller = position.caller ∧ SentSince server₀ server' position' := by
  obtain ⟨caller, call, stage⟩ := position
  obtain ⟨actions, hsent, hactions⟩ := h
  cases stage with
  | done => exact nomatch hadvance
  | looked =>
    simp only [ToolCalls.advance] at hadvance
    split at hadvance
    · cases hadvance
      exact ⟨rfl, actions, hsent, ActionsAt.callActions hactions⟩
    · cases hadvance
      exact ⟨rfl, actions, hsent, hactions⟩
  | validated =>
    simp only [ToolCalls.advance] at hadvance
    split at hadvance
    · cases hadvance
      exact ⟨rfl, actions, hsent, ActionsAt.callActions hactions⟩
    · cases hadvance
      exact ⟨rfl, actions, hsent, hactions⟩
  | prepared sql bound =>
    have hone : server.sent ++ [(caller, .resolveTdsAuth)] = server₀.sent ++
        [Action.resolveTdsAuth].map fun a => (caller, a) := by
      rw [hsent, show actions = [] from hactions]
      simp
    simp only [ToolCalls.advance] at hadvance
    split at hadvance
    · cases hadvance
      exact ⟨rfl, _, hone, .authentication⟩
    · cases hadvance
      exact ⟨rfl, _, hone, rfl⟩
  | authenticated sql bound auth =>
    simp only [ToolCalls.advance] at hadvance
    split at hadvance
    · cases hadvance
      exact ⟨rfl, actions, hsent, ActionsAt.callActions hactions⟩
    · cases hadvance
      exact ⟨rfl, actions, hsent, hactions⟩
  | pooled sql bound pool =>
    have htwo : server.sent ++ [(caller, .getConnection pool)] = server₀.sent ++
        [.resolveTdsAuth, .getConnection pool].map fun a => (caller, a) := by
      rw [hsent, show actions = [.resolveTdsAuth] from hactions]
      simp
    simp only [ToolCalls.advance] at hadvance
    split at hadvance
    · cases hadvance
      exact ⟨rfl, _, htwo, .connection pool⟩
    · cases hadvance
      exact ⟨rfl, _, htwo, rfl⟩
  | connected sql bound pool =>
    have hthree : server.sent ++ [(caller, .query pool sql bound)] = server₀.sent ++
        [.resolveTdsAuth, .getConnection pool, .query pool sql bound].map
          fun a => (caller, a) := by
      rw [hsent, show actions = [.resolveTdsAuth, .getConnection pool] from hactions]
      simp
    simp only [ToolCalls.advance] at hadvance
    split at hadvance
    · cases hadvance
      exact ⟨rfl, _, hthree, .query pool sql bound⟩
    · split at hadvance
      · cases hadvance
        exact ⟨rfl, _, hthree, .query pool sql bound⟩
      · cases hadvance
        exact ⟨rfl, _, hthree, .query pool sql bound⟩
  | responded response =>
    simp only [ToolCalls.advance] at hadvance
    cases hadvance
    exact ⟨rfl, actions, hsent, hactions⟩

theorem SentSince.run {server₀ : Server} {inputs : List Unit} {at_ last : Server × Position}
    (hsent : SentSince server₀ at_.1 at_.2)
    (h : run (fun at_ input => ToolCalls.advance build compiler lib resolvedSchemasFor config
      at_.1 at_.2 input) at_ inputs = some last) :
    last.2.caller = at_.2.caller ∧ SentSince server₀ last.1 last.2 := by
  induction inputs generalizing at_ with
  | nil => exact Option.some.inj h ▸ ⟨rfl, hsent⟩
  | cons input rest ih =>
    obtain ⟨next, hnext, hrest⟩ := exists_step_of_run h
    obtain ⟨hcaller, hsent'⟩ := hsent.advance hnext
    obtain ⟨hlast, hsent''⟩ := ih hsent' hrest
    exact ⟨hlast.trans hcaller, hsent''⟩

/-- What goes out for the sections is in one piece for each of them. -/
theorem sent_of_serve {calls : ℕ → Invocation} {secs : List (Section ℕ Unit)}
    {server server' : Server}
    (h : run (serve (Position.start calls)
      (ToolCalls.advance build compiler lib resolvedSchemasFor config)) server secs =
        some server') :
    ∃ blocks : List (List Action), List.Forall₂ (fun _ block => CallActions block) secs blocks ∧
      server'.sent = server.sent ++ (secs.zip blocks).flatMap fun e =>
        e.2.map fun action => (e.1.caller, action) := by
  induction secs generalizing server with
  | nil =>
    refine ⟨[], .nil, ?_⟩
    rw [← Option.some.inj h]
    exact (List.append_nil _).symm
  | cons sec rest ih =>
    obtain ⟨next, hnext, hrest⟩ := exists_step_of_run h
    obtain ⟨last, hlast, rfl⟩ := Option.map_eq_some_iff.mp hnext
    have hstart : SentSince server server (Position.start calls sec.caller) :=
      ⟨[], (List.append_nil _).symm, rfl⟩
    obtain ⟨hcaller, actions, hsent, hactions⟩ := hstart.run hlast
    obtain ⟨blocks, hblocks, hsent'⟩ := ih hrest
    refine ⟨actions :: blocks, .cons hactions.callActions hblocks, ?_⟩
    rw [hsent', hsent, hcaller]
    simp [Position.start]

variable (build compiler lib resolvedSchemasFor config) (calls : ℕ → Invocation)

/-- One step of the server: a call comes for the lock, takes it, goes on, gives it
back or is dropped with its session. -/
def step (t : State ℕ Server Position) (e : Event ℕ Unit) : Option (State ℕ Server Position) :=
  CriticalSections.step (Position.start calls)
    (ToolCalls.advance build compiler lib resolvedSchemasFor config) Position.finished t e

/-- One call after another, each from what the ones before it have left. -/
def serveAll (secs : List (Section ℕ Unit)) : Option Server :=
  Runs.run (serve (Position.start calls)
    (ToolCalls.advance build compiler lib resolvedSchemasFor config)) (Server.new build config) secs

/-- However the steps of the calls interleave, at most one of them holds the lock;
what they share is what they leave when they are served one after another in the
order of the lock; each that has come to its end has the result of
`call_operation` at its turn; and what goes out for it is in one piece. -/
theorem calls_serialized (events : List (Event ℕ Unit)) (t : State ℕ Server Position)
    (h : Runs.run (step build compiler lib resolvedSchemasFor config calls)
      (initial (Server.new build config)) events = some t) :
    (∀ c c' position position', t.phase c = some (.inside position) →
      t.phase c' = some (.inside position') → c = c') ∧
    serveAll build compiler lib resolvedSchemasFor config calls (sections events) =
      some t.shared ∧
    (∀ c position, t.phase c = some (.left position) →
      ∃ before sec after server, sections events = before ++ sec :: after ∧ sec.caller = c ∧
        serveAll build compiler lib resolvedSchemasFor config calls before = some server ∧
        serveAll build compiler lib resolvedSchemasFor config calls (before ++ [sec]) =
          some (serveCall build compiler lib resolvedSchemasFor config server c (calls c)).1 ∧
        position.stage = .done
          (serveCall build compiler lib resolvedSchemasFor config server c (calls c)).2) ∧
    ∃ blocks : List (List Action),
      List.Forall₂ (fun _ block => CallActions block) (sections events) blocks ∧
      t.shared.sent = ((sections events).zip blocks).flatMap fun e =>
        e.2.map fun action => (e.1.caller, action) := by
  have hserialized := serialized_run events h
  refine ⟨?_, hserialized.shared, ?_, ?_⟩
  · intro c c' position position' hc hc'
    exact hserialized.exclusive hc hc'
  · intro c position hc
    obtain ⟨before, sec, after, server, server', hsplit, hcaller, hbefore, hsec⟩ :=
      hserialized.left hc
    obtain ⟨hserver, hstage⟩ := serveCall_of_runSection hsec (finished_of_left events h hc)
    subst hcaller
    refine ⟨before, sec, after, server, hsplit, rfl, hbefore, ?_, hstage⟩
    rw [← hserver]
    exact run_append hbefore (run_cons_of_step (serve_of_runSection hsec) [])
  · obtain ⟨blocks, hblocks, hsent⟩ := sent_of_serve hserialized.shared
    exact ⟨blocks, hblocks, hsent.trans (List.nil_append _)⟩

end Calls

/-! Two calls of a stored procedure while only reading is allowed: the first is
refused under the lock, the second waits for it. -/

def acceptingCompiler : SchemaCompiler where
  validatorFor _ := some ⟨fun _ => true, fun _ => []⟩
  emptyValidator := ⟨fun _ => true, fun _ => []⟩
  validatorFor_empty := rfl

def whoInvocation (_ : ℕ) : Invocation where
  endpoint := StatementForms.whoEndpoint "SQL_STORED_PROCEDURE"
  operationId := "sys_sp_who"
  args := StatementForms.emptyBody
  replies := ⟨sampleWorld, .ok (), .ok (), .ok []⟩

def refusedThenWaiting : List (Event ℕ Unit) :=
  [.request 0, .request 1, .acquire 0, .advance 0 (), .advance 0 (), .release 0, .acquire 1]

theorem calls_serialized_waiting :
    ∃ t, Runs.run (step ⟨false, false⟩ acceptingCompiler numericLibraries StatementForms.whoSchemas
        StatementForms.readOnlyConfig whoInvocation)
      (initial (Server.new ⟨false, false⟩ StatementForms.readOnlyConfig)) refusedThenWaiting =
        some t ∧
      serveAll ⟨false, false⟩ acceptingCompiler numericLibraries StatementForms.whoSchemas
        StatementForms.readOnlyConfig whoInvocation (sections refusedThenWaiting) =
          some t.shared := by
  obtain ⟨t, ht⟩ : ∃ t, Runs.run (step ⟨false, false⟩ acceptingCompiler numericLibraries
      StatementForms.whoSchemas StatementForms.readOnlyConfig whoInvocation)
    (initial (Server.new ⟨false, false⟩ StatementForms.readOnlyConfig)) refusedThenWaiting =
      some t := ⟨_, rfl⟩
  exact ⟨t, ht, (calls_serialized _ _ _ _ _ _ refusedThenWaiting t ht).2.1⟩

end SqlServerMcp.ToolCalls
