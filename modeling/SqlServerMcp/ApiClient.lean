import SqlServerMcp.SqlPool
import SqlServerMcp.Statement

/-!
One operation call from its arguments to its rows. Everything up to the text of
the statement is prepared from the call alone; only then are credentials
resolved, a pool found and the statement run. What goes out to the surroundings
is recorded as the actions of the call.
-/
namespace SqlServerMcp.ApiClient

open AssocMap ConfigSchema FixedWidth JsonValue Results SqlPool SqlType SqlValue Statement

/-- The columns of the store that a call reads; `description` is the kind. -/
structure EndpointRecord where
  operationId : String
  path : String
  description : Option String

/-- An error token of the server. -/
structure TokenError where
  code : U32
  state : U8
  severity : U8
  message : String
  procedure : String
  line : U32

inductive DriverError where
  | server (token : TokenError)
  | other (message : String)

def severityCategory (severity : U8) : String :=
  if 17 ≤ severity.val then "fatal/resource error (500-equivalent)"
  else if severity.val = 14 then "permission denied (403-equivalent)"
  else "statement/user error (400-equivalent)"

def classifyTiberiusError : DriverError → Fault
  | .server token => .error
      ("SQL Server error " ++ toString token.code.val ++
        " (severity " ++ toString token.severity.val ++
        ", state " ++ toString token.state.val ++
        ") in '" ++ token.procedure ++ "' line " ++ toString token.line.val ++
        ": " ++ token.message ++ " [" ++ severityCategory token.severity ++ "]")
  | .other message => .error
      ("SQL Server connection/protocol error (500-equivalent): " ++ message)

/-- The cells of a row with the names of their columns, in column order. -/
abbrev Row := List (String × ColumnData)

/-- What a call does to its surroundings, in order. -/
inductive Action where
  | resolveTdsAuth
  | getConnection (pool : Pool)
  | query (pool : Pool) (sql : String) (bound : List BoundParam)

/-- What the surroundings answer during one call. -/
structure Answers where
  resolveTdsAuth : Except Fault TdsAuth
  buildPool : Except Fault Unit
  getConnection : Except String Unit
  firstResult : Except DriverError (List Row)

structure Outcome where
  result : Except Fault Json
  pools : Pools
  actions : List Action

/-- The object under `body`; anything else counts as an empty one. -/
def requestBody (args : Json) : Fields :=
  (((args.asObject.getD []).lookup "body").bind Json.asObject).getD []

/-- The actions of a call that runs its statement. -/
theorem query_mem_of_actions_eq {actions : List Action} {pool : Pool} {sql : String}
    {bound : List BoundParam}
    (h : actions = [.resolveTdsAuth, .getConnection pool, .query pool sql bound]) :
    .query pool sql bound ∈ actions := by
  rw [h]
  exact List.mem_cons_of_mem _ (List.mem_cons_of_mem _ List.mem_cons_self)

section Execute

-- The embedded schemas of an operation under an API version are a parameter.
variable (lib : Libraries) (resolvedSchemasFor : String → String → Option (Json × Json))

/-- A row as an object: each cell goes under the name of its column. The members
stand in the order of the columns; the source's map keeps them sorted by name, which
is no difference to a reader of the object. -/
def rowObject (row : Row) : Except Fault JsonMap :=
  row.foldlM (fun obj cell => do
    let value ← columnDataToJson lib cell.2
    .ok (obj.insert cell.1 value)) Map.empty

def jsonRows (rows : List Row) : Except Fault Json := do
  let objects ← rows.mapM (rowObject lib)
  .ok (.arr (objects.map fun obj => .obj obj.entries))

def inputSchemaOf (client : Config) (endpoint : EndpointRecord) : Except Fault Json :=
  match resolvedSchemasFor client.apiVersion endpoint.operationId with
  | some (inputSchema, _) => .ok inputSchema
  | none => .error (.error ("no resolved schema found for operation '" ++
      endpoint.operationId ++ "' under api_version '" ++ client.apiVersion ++ "'"))

/-- The statement and its bound values, or the error that stops the call before
anything is sent. -/
def prepare (client : Config) (endpoint : EndpointRecord) (args : Json) :
    Except Fault (String × List BoundParam) :=
  if client.readOnly && isWritableKind endpoint.description then
    .error (.error ("operation '" ++ endpoint.operationId ++ "' is a " ++
      endpoint.description.getD "object of unrecognized type" ++
      " and cannot run while read_only is enabled; set read_only to false to allow it"))
  else do
    let (schema, name) ← parsePath endpoint.path
    let inputSchema ← inputSchemaOf resolvedSchemasFor client endpoint
    let body := requestBody args
    let executionDatabase ← resolveExecutionDatabase body client
    buildStatement lib schema name endpoint.description (orderedParams inputSchema) body
      executionDatabase

def execute (client : Config) (endpoint : EndpointRecord) (args : Json) (answers : Answers)
    (pools : Pools) : Outcome :=
  match prepare lib resolvedSchemasFor client endpoint args with
  | .error fault => ⟨.error fault, pools, []⟩
  | .ok (sql, bound) =>
    match answers.resolveTdsAuth with
    | .error fault => ⟨.error fault, pools, [.resolveTdsAuth]⟩
    | .ok auth =>
      match cachedPool pools (poolKey client) (tdsConfig client auth) client.poolMaxSize
          answers.buildPool with
      | (.error fault, pools) => ⟨.error fault, pools, [.resolveTdsAuth]⟩
      | (.ok pool, pools) =>
        match answers.getConnection with
        | .error err =>
          ⟨.error (.error ("failed to obtain a pooled SQL Server connection: " ++ err)), pools,
            [.resolveTdsAuth, .getConnection pool]⟩
        | .ok () =>
          let actions := [.resolveTdsAuth, .getConnection pool, .query pool sql bound]
          match answers.firstResult with
          | .error err => ⟨.error (classifyTiberiusError err), pools, actions⟩
          | .ok rows => ⟨jsonRows lib rows, pools, actions⟩

/-- A call that cannot be prepared sends nothing. -/
theorem execute_of_prepare_error {client : Config} {endpoint : EndpointRecord} {args : Json}
    {fault : Fault} (h : prepare lib resolvedSchemasFor client endpoint args = .error fault)
    (answers : Answers) (pools : Pools) :
    execute lib resolvedSchemasFor client endpoint args answers pools =
      ⟨.error fault, pools, []⟩ := by
  simp only [execute, h]

/-- The outcomes of a call, by the step it ends at. -/
inductive Ends (client : Config) (endpoint : EndpointRecord) (args : Json) (answers : Answers)
    (pools : Pools) : Outcome → Prop
  | unprepared {fault : Fault}
      (hprepare : prepare lib resolvedSchemasFor client endpoint args = .error fault) :
      Ends client endpoint args answers pools ⟨.error fault, pools, []⟩
  | unauthenticated {statement : String × List BoundParam} {fault : Fault}
      (hprepare : prepare lib resolvedSchemasFor client endpoint args = .ok statement)
      (hauth : answers.resolveTdsAuth = .error fault) :
      Ends client endpoint args answers pools ⟨.error fault, pools, [.resolveTdsAuth]⟩
  | unpooled {statement : String × List BoundParam} {auth : TdsAuth} {fault : Fault}
      {pools' : Pools}
      (hprepare : prepare lib resolvedSchemasFor client endpoint args = .ok statement)
      (hauth : answers.resolveTdsAuth = .ok auth)
      (hcached : cachedPool pools (poolKey client) (tdsConfig client auth) client.poolMaxSize
        answers.buildPool = (.error fault, pools')) :
      Ends client endpoint args answers pools ⟨.error fault, pools', [.resolveTdsAuth]⟩
  | unconnected {statement : String × List BoundParam} {auth : TdsAuth} {pool : Pool}
      {pools' : Pools} {err : String}
      (hprepare : prepare lib resolvedSchemasFor client endpoint args = .ok statement)
      (hauth : answers.resolveTdsAuth = .ok auth)
      (hcached : cachedPool pools (poolKey client) (tdsConfig client auth) client.poolMaxSize
        answers.buildPool = (.ok pool, pools'))
      (hconnection : answers.getConnection = .error err) :
      Ends client endpoint args answers pools
        ⟨.error (.error ("failed to obtain a pooled SQL Server connection: " ++ err)), pools',
          [.resolveTdsAuth, .getConnection pool]⟩
  | queried {sql : String} {bound : List BoundParam} {auth : TdsAuth} {pool : Pool}
      {pools' : Pools} {result : Except Fault Json}
      (hprepare : prepare lib resolvedSchemasFor client endpoint args = .ok (sql, bound))
      (hauth : answers.resolveTdsAuth = .ok auth)
      (hcached : cachedPool pools (poolKey client) (tdsConfig client auth) client.poolMaxSize
        answers.buildPool = (.ok pool, pools'))
      (hconnection : answers.getConnection = .ok ())
      (hresult : ∀ rows, answers.firstResult = .ok rows → result = jsonRows lib rows) :
      Ends client endpoint args answers pools
        ⟨result, pools', [.resolveTdsAuth, .getConnection pool, .query pool sql bound]⟩

theorem execute_ends (client : Config) (endpoint : EndpointRecord) (args : Json)
    (answers : Answers) (pools : Pools) :
    Ends lib resolvedSchemasFor client endpoint args answers pools
      (execute lib resolvedSchemasFor client endpoint args answers pools) := by
  unfold execute
  split
  · exact .unprepared ‹_›
  · split
    · exact .unauthenticated ‹_› ‹_›
    · split
      · exact .unpooled ‹_› ‹_› ‹_›
      · split
        · exact .unconnected ‹_› ‹_› ‹_› ‹_›
        · split
          · rename_i hfailed
            refine .queried ‹_› ‹_› ‹_› ‹_› fun rows hrows => ?_
            rw [hfailed] at hrows
            contradiction
          · rename_i hrows
            refine .queried ‹_› ‹_› ‹_› ‹_› fun rows hrows' => ?_
            rw [Except.ok.inj (hrows.symm.trans hrows')]

/-- The statement a call runs is the prepared one. -/
theorem prepare_of_query_mem {client : Config} {endpoint : EndpointRecord} {args : Json}
    {answers : Answers} {pools : Pools} {pool : Pool} {sql : String} {bound : List BoundParam}
    (h : .query pool sql bound ∈
      (execute lib resolvedSchemasFor client endpoint args answers pools).actions) :
    prepare lib resolvedSchemasFor client endpoint args = .ok (sql, bound) := by
  have hends := execute_ends lib resolvedSchemasFor client endpoint args answers pools
  generalize execute lib resolvedSchemasFor client endpoint args answers pools = outcome at h hends
  cases hends with
  | unprepared => simp at h
  | unauthenticated => simp at h
  | unpooled => simp at h
  | unconnected => simp at h
  | queried hprepare =>
    simp only [List.mem_cons, reduceCtorEq, false_or, List.not_mem_nil, or_false,
      Action.query.injEq] at h
    obtain ⟨-, rfl, rfl⟩ := h
    exact hprepare

/-- A call that runs its statement returns the objects of the rows it gets. -/
theorem result_of_query_mem {client : Config} {endpoint : EndpointRecord} {args : Json}
    {answers : Answers} {pools : Pools} {pool : Pool} {sql : String} {bound : List BoundParam}
    (h : .query pool sql bound ∈
      (execute lib resolvedSchemasFor client endpoint args answers pools).actions)
    (rows : List Row) :
    (execute lib resolvedSchemasFor client endpoint args
      { answers with firstResult := .ok rows } pools).result = jsonRows lib rows := by
  have hends := execute_ends lib resolvedSchemasFor client endpoint args answers pools
  generalize execute lib resolvedSchemasFor client endpoint args answers pools = outcome at h hends
  cases hends with
  | unprepared => simp at h
  | unauthenticated => simp at h
  | unpooled => simp at h
  | unconnected => simp at h
  | queried hprepare hauth hcached hconnection =>
    simp only [execute, hprepare, hauth, hcached, hconnection]

/-- A call whose statement is prepared asks for credentials. -/
theorem actions_ne_nil_of_prepare {client : Config} {endpoint : EndpointRecord} {args : Json}
    {statement : String × List BoundParam}
    (h : prepare lib resolvedSchemasFor client endpoint args = .ok statement)
    (answers : Answers) (pools : Pools) :
    (execute lib resolvedSchemasFor client endpoint args answers pools).actions ≠ [] := by
  have hends := execute_ends lib resolvedSchemasFor client endpoint args answers pools
  generalize execute lib resolvedSchemasFor client endpoint args answers pools = outcome at hends ⊢
  cases hends with
  | unprepared hprepare => exact nomatch h.symm.trans hprepare
  | unauthenticated | unpooled | unconnected | queried => exact List.cons_ne_nil _ _

/-- In read-only mode a kind that may write is refused before anything else. -/
theorem prepare_refused {client : Config} {endpoint : EndpointRecord}
    (hreadOnly : client.readOnly = true) (hkind : isWritableKind endpoint.description = true)
    (args : Json) :
    ∃ message, prepare lib resolvedSchemasFor client endpoint args =
      .error (.error message) := by
  have hrefused : (client.readOnly && isWritableKind endpoint.description) = true := by
    rw [hreadOnly, hkind]
    rfl
  unfold prepare
  rw [if_pos hrefused]
  exact ⟨_, rfl⟩

/-- What preparing a call takes: a kind that may run, an object named by the
path, a known schema, a database and a statement. -/
theorem prepare_eq_ok_iff (client : Config) (endpoint : EndpointRecord) (args : Json)
    (sql : String) (bound : List BoundParam) :
    prepare lib resolvedSchemasFor client endpoint args = .ok (sql, bound) ↔
      (client.readOnly && isWritableKind endpoint.description) = false ∧
      ∃ schema name inputSchema executionDatabase,
        parsePath endpoint.path = .ok (schema, name) ∧
        inputSchemaOf resolvedSchemasFor client endpoint = .ok inputSchema ∧
        resolveExecutionDatabase (requestBody args) client = .ok executionDatabase ∧
        buildStatement lib schema name endpoint.description (orderedParams inputSchema)
          (requestBody args) executionDatabase = .ok (sql, bound) := by
  unfold prepare
  cases hrefused : client.readOnly && isWritableKind endpoint.description with
  | true => simp
  | false =>
    simp only [Bool.false_eq_true, if_false, true_and, bind_eq_ok]
    constructor
    · intro hparts
      rcases hparts with ⟨⟨schema, name⟩, hpath, inputSchema, hschema, db, hdb, hbuild⟩
      exact ⟨schema, name, inputSchema, db, hpath, hschema, hdb, hbuild⟩
    · intro hparts
      rcases hparts with ⟨schema, name, inputSchema, db, hpath, hschema, hdb, hbuild⟩
      exact ⟨(schema, name), hpath, inputSchema, hschema, db, hdb, hbuild⟩

/-- The pool cache changes in a call through `cachedPool` only. -/
theorem execute_pools (client : Config) (endpoint : EndpointRecord) (args : Json)
    (answers : Answers) (pools : Pools) :
    (execute lib resolvedSchemasFor client endpoint args answers pools).pools = pools ∨
      ∃ auth, answers.resolveTdsAuth = .ok auth ∧
        (execute lib resolvedSchemasFor client endpoint args answers pools).pools =
          (cachedPool pools (poolKey client) (tdsConfig client auth) client.poolMaxSize
            answers.buildPool).2 := by
  have hends := execute_ends lib resolvedSchemasFor client endpoint args answers pools
  generalize execute lib resolvedSchemasFor client endpoint args answers pools = outcome at hends
  cases hends with
  | unprepared => exact Or.inl rfl
  | unauthenticated => exact Or.inl rfl
  | unpooled _ hauth hcached => exact Or.inr ⟨_, hauth, by rw [hcached]⟩
  | unconnected _ hauth hcached => exact Or.inr ⟨_, hauth, by rw [hcached]⟩
  | queried _ hauth hcached => exact Or.inr ⟨_, hauth, by rw [hcached]⟩

end Execute

end SqlServerMcp.ApiClient
