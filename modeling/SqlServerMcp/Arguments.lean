import SqlServerMcp.CallTool
import SqlServerMcp.FunctionCalls
import SqlServerMcp.StatementForms

/-!
What happens to the arguments of a call between the caller and the statement.
A body that is present is checked against the request schema; the parameters it
declares reach the statement, each once, and anything else has no effect.
-/
namespace SqlServerMcp.Arguments

open AssocMap CallTool ConfigSchema FixedWidth JsonSchema JsonValue Ranking Results
open SqlPool SqlType SqlValue Text Validator
open Generator (ParamRow buildRequestSchema inputParams requiredNames firstOrdinal_lt)
open Statement ApiClient FunctionCalls StatementForms

/-- An object whose `body`, if it has one, is an object with every required
parameter. -/
def BodyComplete (rows : List ParamRow) (args : Json) : Prop :=
  ∃ fields, args = .obj fields ∧ ∀ body, fields.lookup "body" = some body →
    ∃ bodyFields, body = .obj bodyFields ∧ ∀ name ∈ requiredNames rows, name ∈ keys bodyFields

theorem buildRequestSchema_get_type (rows : List ParamRow) (foundInDatabases : List String) :
    (buildRequestSchema rows foundInDatabases).get "type" = some (.str "object") := by
  by_cases h : requiredNames rows = []
  · simp only [buildRequestSchema, h, if_true]
    rfl
  · simp only [buildRequestSchema, h, if_false]
    rfl

theorem buildRequestSchema_get_required {rows : List ParamRow} (h : requiredNames rows ≠ [])
    (foundInDatabases : List String) :
    (buildRequestSchema rows foundInDatabases).get "required" =
      some (.arr ((requiredNames rows).map .str)) := by
  simp only [buildRequestSchema, h, if_false]
  rfl

/-- A value that meets a reordered request schema is an object with every
required parameter. -/
theorem required_of_valid {rows : List ParamRow} {foundInDatabases : List String}
    {root carried value : Json}
    (hcarried : Reordered (buildRequestSchema rows foundInDatabases) carried)
    (h : Valid root carried value) :
    ∃ fields, value = .obj fields ∧ ∀ name ∈ requiredNames rows, name ∈ keys fields := by
  obtain ⟨type, htype, hstr⟩ :=
    hcarried.get_eq_some (buildRequestSchema_get_type rows foundInDatabases)
  obtain rfl := hstr.eq_str
  obtain ⟨fields, rfl⟩ := exists_obj_of_hasType (h.hasType_of htype)
  refine ⟨fields, rfl, ?_⟩
  intro name hname
  have hne : requiredNames rows ≠ [] := List.ne_nil_of_mem hname
  obtain ⟨names, hrequired, harr⟩ :=
    hcarried.get_eq_some (buildRequestSchema_get_required hne foundInDatabases)
  obtain ⟨items, rfl, hitems⟩ := harr.of_arr _ rfl
  exact h.mem_of_required hrequired rfl (hitems name (List.mem_map_of_mem hname))

/-- What meets an input schema of type object that carries a request schema is
complete. -/
theorem bodyComplete_of_valid {rows : List ParamRow} {foundInDatabases : List String}
    {inputSchema args : Json}
    (hcarries : Carries inputSchema (buildRequestSchema rows foundInDatabases))
    (htype : inputSchema.get "type" = some (.str "object"))
    (h : Valid inputSchema inputSchema args) : BodyComplete rows args := by
  obtain ⟨fields, rfl⟩ := exists_obj_of_hasType (h.hasType_of htype)
  refine ⟨fields, rfl, ?_⟩
  intro body hbody
  cases hcarries with
  | inline properties carried hproperties hcarried hreordered =>
    exact required_of_valid hreordered (h.of_property hproperties hcarried rfl hbody)
  | reference properties wrapper defs carried name hproperties hwrapper hpointer hdefs hcarried
      hreordered =>
    have hwrapped : Valid inputSchema wrapper body :=
      h.of_property hproperties hwrapper rfl hbody
    refine required_of_valid hreordered (hwrapped.of_ref hpointer ?_)
    simp [resolve, Text.stripPrefix_append, hdefs, hcarried]

/-- The validator that accepts exactly what meets the keywords of a schema. -/
noncomputable def keywordValidator (schema : Json) : CompiledSchema where
  isValid value := @decide (Valid schema schema value) (Classical.propDecidable _)
  errors _ := []

noncomputable def keywordCompiler : SchemaCompiler where
  validatorFor schema := some (keywordValidator schema)
  emptyValidator := keywordValidator (.obj [])
  validatorFor_empty := rfl

theorem keywordCompiler_isValid_iff (schema value : Json) :
    (keywordCompiler.compile schema).isValid value = true ↔ Valid schema schema value :=
  @decide_eq_true_iff (Valid schema schema value) (Classical.propDecidable _)

theorem keywordCompiler_enforces (schema : Json) : keywordCompiler.Enforces schema :=
  ⟨keywordValidator schema, rfl, fun value => (keywordCompiler_isValid_iff schema value).mp⟩

/-- One parameter that may have a default. -/
def whoRows (hasDefault : Bool) : List ParamRow :=
  [{ catalogRow "@loginame" 1 "sysname" firstOrdinal_lt with hasDefaultValue := hasDefault }]

def whoInput (hasDefault : Bool) : Json :=
  .obj [("type", .str "object"),
    ("properties", .obj [("body", buildRequestSchema (whoRows hasDefault) ["master"])])]

def whoInputSchemas (hasDefault : Bool) (_ : String) (operationId : String) :
    Option (Json × Json) :=
  if operationId = "sys_sp_who" then some (whoInput hasDefault, .null) else none

def whoCall (args : Json) : CallRequest :=
  ⟨whoEndpoint "SQL_STORED_PROCEDURE", "sys_sp_who", args, answering []⟩

theorem whoInput_carries (hasDefault : Bool) :
    Carries (whoInput hasDefault) (buildRequestSchema (whoRows hasDefault) ["master"]) :=
  .inline _ _ rfl rfl (.refl _)

/-- An accepted call acts as its execution does. -/
theorem whoCall_actions {hasDefault : Bool} {args : Json}
    (h : Valid (whoInput hasDefault) (whoInput hasDefault) args) :
    (callOperation keywordCompiler numericLibraries (whoInputSchemas hasDefault) writableConfig
        Process.initial (whoCall args)).actions =
      (execute numericLibraries (whoInputSchemas hasDefault) writableConfig
        (whoEndpoint "SQL_STORED_PROCEDURE") args (answering []) []).actions := by
  rw [callOperation_actions numericLibraries initial_validatorsFresh]
  exact if_pos ((keywordCompiler_isValid_iff _ _).mpr h)

/-- A call that gets as far as its surroundings has complete arguments, and
incomplete ones end in an error before anything is sent. -/
theorem reached_body_complete (compiler : SchemaCompiler) (lib : Libraries)
    (resolvedSchemasFor : String → String → Option (Json × Json)) (config : Config)
    (rows : List ParamRow) (foundInDatabases : List String) (inputSchema outputSchema : Json)
    (calls : List CallRequest) (call : CallRequest)
    (hstored : resolvedSchemasFor config.apiVersion call.operationId =
      some (inputSchema, outputSchema))
    (hcarries : Carries inputSchema (buildRequestSchema rows foundInDatabases))
    (htype : inputSchema.get "type" = some (.str "object"))
    (henforces : compiler.Enforces inputSchema) :
    let outcome := callOperation compiler lib resolvedSchemasFor config
      (runCalls compiler lib resolvedSchemasFor config Process.initial calls) call
    (outcome.actions ≠ [] → BodyComplete rows call.args) ∧
      (¬ BodyComplete rows call.args →
        outcome.actions = [] ∧ ∃ err, outcome.result = .error err) := by
  intro outcome
  have hfresh : ValidatorsFresh compiler resolvedSchemasFor config
      (runCalls compiler lib resolvedSchemasFor config Process.initial calls) :=
    runCalls_validatorsFresh lib calls
  have hactions := callOperation_actions lib hfresh call
  have hrejected := callOperation_rejected lib hfresh call
  have hinput : inputSchemaOrEmpty resolvedSchemasFor config.apiVersion call.operationId =
      inputSchema := by
    simp only [inputSchemaOrEmpty, hstored]
  rw [hinput] at hactions hrejected
  have hcomplete : (compiler.compile inputSchema).isValid call.args = true →
      BodyComplete rows call.args := by
    obtain ⟨validator, hcompiles, hsound⟩ := henforces
    intro hvalid
    rw [SchemaCompiler.compile, hcompiles] at hvalid
    exact bodyComplete_of_valid hcarries htype (hsound call.args hvalid)
  constructor
  · intro hreached
    by_contra hincomplete
    apply hreached
    rw [hactions, if_neg fun hvalid => hincomplete (hcomplete hvalid)]
  · intro hincomplete
    have hinvalid : (compiler.compile inputSchema).isValid call.args ≠ true :=
      fun hvalid => hincomplete (hcomplete hvalid)
    exact ⟨by rw [hactions, if_neg hinvalid], hrejected hinvalid⟩

theorem empty_body_rejected :
    (callOperation keywordCompiler numericLibraries (whoInputSchemas false) writableConfig
        (runCalls keywordCompiler numericLibraries (whoInputSchemas false) writableConfig
          Process.initial []) (whoCall emptyBody)).actions = [] ∧
      ∃ err, (callOperation keywordCompiler numericLibraries (whoInputSchemas false)
        writableConfig (runCalls keywordCompiler numericLibraries (whoInputSchemas false)
          writableConfig Process.initial []) (whoCall emptyBody)).result = .error err := by
  refine (reached_body_complete keywordCompiler numericLibraries (whoInputSchemas false)
    writableConfig (whoRows false) ["master"] (whoInput false) .null [] (whoCall emptyBody) rfl
    (whoInput_carries false) rfl (keywordCompiler_enforces _)).2 ?_
  intro hparts
  rcases hparts with ⟨fields, hfields, hbody⟩
  obtain rfl := Json.obj.inj hfields
  obtain ⟨bodyFields, hobj, hrequired⟩ := hbody (.obj []) rfl
  obtain rfl := Json.obj.inj hobj
  exact absurd (hrequired "loginame" (by decide)) (by decide)

/-- Arguments without a body reach the server although a parameter is
required. -/
theorem missing_body_reaches_server :
    requiredNames (whoRows false) = ["loginame"] ∧
      .query localPool "EXEC [sys].[sp_who] @loginame = @P1" [.string none] ∈
        (callOperation keywordCompiler numericLibraries (whoInputSchemas false) writableConfig
          Process.initial (whoCall (.obj []))).actions ∧
      ¬ ∃ bodyFields, (Json.obj []).get "body" = some (.obj bodyFields) ∧
        ∀ name ∈ requiredNames (whoRows false), name ∈ keys bodyFields := by
  refine ⟨by decide, ?_, ?_⟩
  · rw [whoCall_actions (.of_empty rfl rfl rfl)]
    exact query_mem_of_actions_eq rfl
  · intro hparts
    rcases hparts with ⟨bodyFields, hbody, _⟩
    cases hbody

/-- An argument of a declared name is bound at the place of its parameter. -/
theorem existsUnique_binding {lib : Libraries} {params : List Param} {body : Fields}
    {bound : List BoundParam} (hnodup : (params.map Param.name).Nodup)
    (hbound : bindParams lib params body = .ok bound) {name : String} {value : Json}
    (hname : name ∈ params.map Param.name) (hvalue : body.lookup name = some value) :
    ∃! i : ℕ, ∃ q b, params[i]? = some q ∧ q.name = name ∧ bound[i]? = some b ∧
      jsonToParam lib value q.xSqlType = .ok b := by
  obtain ⟨q, hq, rfl⟩ := List.mem_map.mp hname
  obtain ⟨i, hi⟩ := List.mem_iff_getElem?.mp hq
  obtain ⟨b, hb, hconverted⟩ := getElem?_of_mapM hbound hi
  have hargument : argument body q = value := by
    simp only [argument, hvalue, Option.getD_some]
  rw [hargument] at hconverted
  refine ⟨i, ⟨q, b, hi, rfl, hb, hconverted⟩, ?_⟩
  intro j hother
  obtain ⟨q', _, hj, hsame, _⟩ := hother
  have hlt : j < (params.map Param.name).length := by
    rw [List.length_map]
    exact (List.getElem?_eq_some_iff.mp hj).1
  apply (List.getElem?_inj hlt hnodup).mp
  rw [List.getElem?_map, List.getElem?_map, hj, hi, Option.map_some, Option.map_some, hsame]

/-- Only the arguments of declared names, and the database, count for what a
call sends. -/
theorem prepare_congr {lib : Libraries}
    {resolvedSchemasFor : String → String → Option (Json × Json)} {config : Config}
    {endpoint : EndpointRecord} {inputSchema args args' : Json} {sql : String}
    {bound : List BoundParam}
    (hschema : inputSchemaOf resolvedSchemasFor config endpoint = .ok inputSchema)
    (hdatabase : (requestBody args').lookup executionDatabaseParam =
      (requestBody args).lookup executionDatabaseParam)
    (hagree : ∀ q ∈ orderedParams inputSchema,
      (requestBody args').lookup q.name = (requestBody args).lookup q.name)
    (h : prepare lib resolvedSchemasFor config endpoint args = .ok (sql, bound)) :
    prepare lib resolvedSchemasFor config endpoint args' = .ok (sql, bound) := by
  obtain ⟨hallowed, schema, name, inputSchema', db, hpath, hschema', hdb, hbuild⟩ :=
    (prepare_eq_ok_iff lib resolvedSchemasFor config endpoint args sql bound).mp h
  obtain rfl := Except.ok.inj (hschema.symm.trans hschema')
  obtain ⟨hbound, hsql⟩ := (buildStatement_eq_ok_iff _ _ _ _ _ _ _ _ _).mp hbuild
  have hdb' : resolveExecutionDatabase (requestBody args') config = .ok db := by
    rw [resolveExecutionDatabase_congr _ (requestBody args) config hdatabase]
    exact hdb
  have hbound' : bindParams lib (orderedParams inputSchema) (requestBody args') = .ok bound := by
    rw [← hbound]
    apply mapM_congr
    intro q hq
    simp only [argument, hagree q hq]
  apply (prepare_eq_ok_iff lib resolvedSchemasFor config endpoint args' sql bound).mpr
  exact ⟨hallowed, schema, name, inputSchema, db, hpath, hschema, hdb',
    (buildStatement_eq_ok_iff _ _ _ _ _ _ _ _ _).mpr ⟨hbound', hsql⟩⟩

/-- A declared argument is bound at exactly one place, and arguments under other
names change nothing about the statement. -/
theorem declared_arguments_bound (compiler : SchemaCompiler) (lib : Libraries)
    (resolvedSchemasFor : String → String → Option (Json × Json)) (config : Config)
    (rows : List ParamRow) (foundInDatabases : List String) (inputSchema : Json)
    (process : Process) (call : CallRequest) (pool : Pool) (sql : String)
    (bound : List BoundParam)
    (hschema : inputSchemaOf resolvedSchemasFor config call.endpoint = .ok inputSchema)
    (hcarries : Carries inputSchema (buildRequestSchema rows foundInDatabases))
    (hquery : .query pool sql bound ∈
      (callOperation compiler lib resolvedSchemasFor config process call).actions) :
    (∀ p ∈ rows, p.isOutput = false → p.name ≠ executionDatabaseParam →
      ∀ value, (requestBody call.args).lookup p.name = some value →
        ∃! i : ℕ, ∃ q b, (orderedParams inputSchema)[i]? = some q ∧ q.name = p.name ∧
          bound[i]? = some b ∧ jsonToParam lib value q.xSqlType = .ok b) ∧
    ∀ args, (∀ key, (key = executionDatabaseParam ∨
          ∃ p ∈ rows, p.isOutput = false ∧ p.name = key) →
        (requestBody args).lookup key = (requestBody call.args).lookup key) →
      prepare lib resolvedSchemasFor config call.endpoint args = .ok (sql, bound) := by
  have hprepare := prepare_of_query_mem lib resolvedSchemasFor (action_mem_execute lib hquery)
  obtain ⟨_, schema, name, inputSchema', db, _, hschema', _, hbuild⟩ :=
    (prepare_eq_ok_iff lib resolvedSchemasFor config call.endpoint call.args sql bound).mp hprepare
  obtain rfl := Except.ok.inj (hschema.symm.trans hschema')
  obtain ⟨hbound, _⟩ := (buildStatement_eq_ok_iff _ _ _ _ _ _ _ _ _).mp hbuild
  obtain ⟨hnodup, hnames⟩ := orderedParams_names hcarries
  constructor
  · intro p hp hinput hne value hvalue
    exact existsUnique_binding hnodup hbound
      ((hnames p.name).mpr ⟨hne, p, hp, hinput, rfl⟩) hvalue
  · intro args hagree
    apply prepare_congr hschema (hagree executionDatabaseParam (Or.inl rfl)) _ hprepare
    intro q hq
    exact hagree q.name (Or.inr ((hnames q.name).mp (List.mem_map_of_mem hq)).2)

/-- A body of one member that the request schema does not reject is accepted. -/
theorem whoInput_valid {key : String} {member : Json}
    (h : ∀ props property,
      (buildRequestSchema (whoRows true) ["master"]).get "properties" = some (.obj props) →
      props.lookup key = some property → Valid (whoInput true) property member) :
    Valid (whoInput true) (whoInput true) (.obj [("body", .obj [(key, member)])]) := by
  refine .of_singleton rfl rfl rfl ?_
  intro props property hprops hproperty
  obtain rfl := Json.obj.inj (Option.some.inj hprops)
  obtain rfl := Option.some.inj hproperty
  exact .of_singleton rfl rfl rfl h

theorem login_call_query_mem :
    .query localPool "EXEC [sys].[sp_who] @loginame = @P1" [.string (some "sa")] ∈
      (callOperation keywordCompiler numericLibraries (whoInputSchemas true) writableConfig
        Process.initial (whoCall loginBody)).actions := by
  have hvalid : Valid (whoInput true) (whoInput true) loginBody := by
    refine whoInput_valid ?_
    intro props property hprops hproperty
    obtain rfl := Json.obj.inj (Option.some.inj hprops)
    obtain rfl := Option.some.inj hproperty
    refine .keywords ?_ ?_ ?_ ?_ ?_
    · intro reference target h
      cases h
    · intro name h
      obtain rfl := Json.str.inj (Option.some.inj h)
      rfl
    · intro names fields name h
      cases h
    · intro props fields key property member h
      cases h
    · intro itemSchema elements element h
      cases h
  rw [whoCall_actions hvalid]
  exact query_mem_of_actions_eq rfl

theorem login_argument_bound :
    (∀ p ∈ whoRows true, p.isOutput = false → p.name ≠ executionDatabaseParam →
      ∀ value, (requestBody loginBody).lookup p.name = some value →
        ∃! i : ℕ, ∃ q b, (orderedParams (whoInput true))[i]? = some q ∧ q.name = p.name ∧
          [BoundParam.string (some "sa")][i]? = some b ∧
          jsonToParam numericLibraries value q.xSqlType = .ok b) ∧
    ∀ args, (∀ key, (key = executionDatabaseParam ∨
          ∃ p ∈ whoRows true, p.isOutput = false ∧ p.name = key) →
        (requestBody args).lookup key = (requestBody loginBody).lookup key) →
      prepare numericLibraries (whoInputSchemas true) writableConfig
        (whoEndpoint "SQL_STORED_PROCEDURE") args =
        .ok ("EXEC [sys].[sp_who] @loginame = @P1", [.string (some "sa")]) :=
  declared_arguments_bound keywordCompiler numericLibraries (whoInputSchemas true) writableConfig
    (whoRows true) ["master"] (whoInput true) Process.initial (whoCall loginBody) localPool
    "EXEC [sys].[sp_who] @loginame = @P1" [.string (some "sa")] rfl (whoInput_carries true)
    login_call_query_mem

def misspelledBody : Json := .obj [("body", .obj [("loginam", .str "sa")])]

/-- A misspelled argument is accepted, bound nowhere and replaced by NULL. -/
theorem misspelled_argument_ignored :
    .query localPool "EXEC [sys].[sp_who] @loginame = @P1" [.string none] ∈
        (callOperation keywordCompiler numericLibraries (whoInputSchemas true) writableConfig
          Process.initial (whoCall misspelledBody)).actions ∧
      (requestBody misspelledBody).lookup "loginam" = some (.str "sa") ∧
      ∀ q ∈ orderedParams (whoInput true), q.name ≠ "loginam" := by
  have hvalid : Valid (whoInput true) (whoInput true) misspelledBody := by
    refine whoInput_valid ?_
    intro props property hprops hproperty
    obtain rfl := Json.obj.inj (Option.some.inj hprops)
    cases hproperty
  refine ⟨?_, rfl, ?_⟩
  · rw [whoCall_actions hvalid]
    exact query_mem_of_actions_eq rfl
  · have hparams : orderedParams (whoInput true) = [⟨"loginame", 1, "sysname"⟩] := rfl
    intro q hq
    rw [hparams, List.mem_singleton] at hq
    subst hq
    decide

end SqlServerMcp.Arguments
