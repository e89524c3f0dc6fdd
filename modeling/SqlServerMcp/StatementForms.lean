import SqlServerMcp.ApiClient

/-!
The texts a call can run. A statement has one of four forms around a qualified
name of bracketed identifiers; which one depends on the kind of the object, and
no argument value reaches the text. The forms are told apart by their first
character and by one punctuation mark each.
-/
namespace SqlServerMcp.StatementForms

open AssocMap ConfigSchema FixedWidth JsonValue Results SqlPool SqlType SqlValue Text
open Statement ApiClient

/-- Two or three bracketed identifiers joined by dots. -/
def Qualified (q : String) : Prop :=
  ∃ parts : List String, (parts.length = 2 ∨ parts.length = 3) ∧ (∀ p ∈ parts, Ident p) ∧
    q = ".".intercalate (parts.map fun p => "[" ++ p ++ "]")

inductive Form where
  | view
  | function
  | exec
  | execNamed
  deriving DecidableEq

/-- The text of a form with its number of bound values. A view binds none of
the values it is given. -/
def HasForm (form : Form) (sql : String) (boundCount : ℕ) : Prop :=
  ∃ q, Qualified q ∧
    match form with
    | .view => sql = "SELECT * FROM " ++ q
    | .function => sql = "SELECT * FROM " ++ q ++ "(" ++ placeholders boundCount ++ ")"
    | .exec => sql = "EXEC " ++ q ∧ boundCount = 0
    | .execNamed => ∃ names : List String, names ≠ [] ∧ names.length = boundCount ∧
        (∀ a ∈ names, Ident a) ∧
        sql = "EXEC " ++ q ++ " " ++ ", ".intercalate (namedAssignments names)

theorem qualifiedName_qualified {schema name : String} {executionDatabase : Option String}
    (hschema : Ident schema) (hname : Ident name)
    (hdb : ∀ db, executionDatabase = some db → Ident db) :
    Qualified (qualifiedName schema name executionDatabase) := by
  cases executionDatabase with
  | none =>
    refine ⟨[schema, name], Or.inl rfl, ?_, ?_⟩
    · intro p hp
      simp only [List.mem_cons, List.not_mem_nil, or_false] at hp
      rcases hp with rfl | rfl
      · exact hschema
      · exact hname
    · apply String.toList_injective
      simp [qualifiedName, quoteIdent_of_ident hschema, quoteIdent_of_ident hname]
  | some db =>
    refine ⟨[db, schema, name], Or.inr rfl, ?_, ?_⟩
    · intro p hp
      simp only [List.mem_cons, List.not_mem_nil, or_false] at hp
      rcases hp with rfl | rfl | rfl
      · exact hdb _ rfl
      · exact hschema
      · exact hname
    · apply String.toList_injective
      simp [qualifiedName, quoteIdent_of_ident hschema, quoteIdent_of_ident hname,
        quoteIdent_of_ident (hdb db rfl)]

/-- A mark that is no part of a quoted identifier does not occur in a qualified
name. -/
theorem Qualified.count_eq_zero {q : String} (h : Qualified q) {c : Char}
    (hident : isIdentChar c = false) (hopen : c ≠ '[') (hclose : c ≠ ']') (hdot : c ≠ '.') :
    q.toList.count c = 0 := by
  obtain ⟨parts, _, hparts, rfl⟩ := h
  rw [count_intercalate c "." _ (by simpa using hdot), List.sum_eq_zero_iff_forall_eq_nat]
  intro n hn
  simp only [List.map_map, List.mem_map, Function.comp_apply] at hn
  obtain ⟨p, hp, rfl⟩ := hn
  have hp0 : p.toList.count c = 0 := List.count_eq_zero.mpr ((hparts p hp).notMem hident)
  have hopen' : "[".toList.count c = 0 := List.count_eq_zero.mpr (by simpa using hopen)
  have hclose' : "]".toList.count c = 0 := List.count_eq_zero.mpr (by simpa using hclose)
  rw [String.toList_append, String.toList_append, List.count_append, List.count_append, hp0,
    hopen', hclose']

/-- Every assignment has one equals sign. -/
theorem count_eq_namedAssignments (names : List String) (h : ∀ a ∈ names, Ident a) :
    (", ".intercalate (namedAssignments names)).toList.count '=' = names.length := by
  have hone : ∀ a, Ident a → ∀ i : ℕ,
      ("@" ++ a ++ " = @P" ++ toString (i + 1)).toList.count '=' = 1 := by
    intro a ha i
    have ha0 : a.toList.count '=' = 0 := List.count_eq_zero.mpr (ha.notMem (by decide))
    have hi0 : (toString (i + 1)).toList.count '=' = 0 := by
      refine List.count_eq_zero.mpr fun hmem => ?_
      exact absurd (isDigit_of_mem_toString hmem) (by decide)
    have hat : "@".toList.count '=' = 0 := by decide
    have heq : " = @P".toList.count '=' = 1 := by decide
    simp only [String.toList_append, List.count_append, ha0, hi0, hat, heq]
  have hall : ∀ start : ℕ, ((names.zipIdx start).map fun entry =>
      ("@" ++ entry.1 ++ " = @P" ++ toString (entry.2 + 1)).toList.count '=').sum =
        names.length := by
    induction names with
    | nil =>
      intro start
      rfl
    | cons a rest ih =>
      intro start
      simp only [List.forall_mem_cons] at h
      rw [List.zipIdx_cons, List.map_cons, List.sum_cons, ih h.2 (start + 1),
        hone a h.1 start, List.length_cons]
      omega
  rw [count_intercalate '=' ", " _ (by decide), namedAssignments, List.map_map]
  exact hall 0

theorem count_eq_execText {q : String} (hq : Qualified q) (names : List String)
    (h : ∀ a ∈ names, Ident a) : (execText q names).toList.count '=' = names.length := by
  have hq0 : q.toList.count '=' = 0 :=
    hq.count_eq_zero (by decide) (by decide) (by decide) (by decide)
  have hexec : "EXEC ".toList.count '=' = 0 := by decide
  have hblank : " ".toList.count '=' = 0 := by decide
  unfold execText
  split
  · rename_i hnil
    rw [String.toList_append, List.count_append, hexec, hq0, hnil]
    rfl
  · simp only [String.toList_append, List.count_append, hexec, hq0, hblank,
      count_eq_namedAssignments names h, Nat.zero_add]

/-- The form a text shows: a query or not by its first character, then by a
parenthesis or an equals sign. -/
def shownForm (sql : String) : Form :=
  if sql.toList.head? = some 'S' then
    if sql.toList.count '(' = 0 then .view else .function
  else if sql.toList.count '=' = 0 then .exec else .execNamed

theorem shownForm_of_hasForm {form : Form} {sql : String} {boundCount : ℕ}
    (h : HasForm form sql boundCount) : shownForm sql = form := by
  obtain ⟨q, hq, htext⟩ := h
  unfold shownForm
  cases form with
  | view =>
    obtain rfl := htext
    have hselect : "SELECT * FROM ".toList.count '(' = 0 := by decide
    have hcount : ("SELECT * FROM " ++ q).toList.count '(' = 0 := by
      rw [String.toList_append, List.count_append, hselect,
        hq.count_eq_zero (by decide) (by decide) (by decide) (by decide)]
    rw [if_pos (by simp), if_pos hcount]
  | function =>
    obtain rfl := htext
    have hcount : ("SELECT * FROM " ++ q ++ "(" ++ placeholders boundCount ++ ")").toList.count
        '(' ≠ 0 := by
      simp
    rw [if_pos (by simp), if_neg hcount]
  | exec =>
    obtain ⟨rfl, _⟩ := htext
    have hcount : ("EXEC " ++ q).toList.count '=' = 0 := count_eq_execText hq [] (by simp)
    rw [if_neg (by simp), if_pos hcount]
  | execNamed =>
    obtain ⟨names, hne, _, hidents, rfl⟩ := htext
    have hcount := count_eq_execText hq names hidents
    rw [execText, if_neg hne] at hcount
    have hpos : names.length ≠ 0 := by simpa using hne
    rw [if_neg (by simp), if_neg (by rw [hcount]; exact hpos)]

/-- The form of a kind, given how many values are bound. -/
def formOf (kind : Option String) (boundCount : ℕ) : Form :=
  match callForm kind with
  | .view => .view
  | .function => .function
  | .procedure => if boundCount = 0 then .exec else .execNamed

/-- What is built around a qualified name has the form of its kind. -/
theorem hasForm_of_statementText {kind : Option String} {q : String} {params : List Param}
    {sql : String} (hq : Qualified q)
    (h : statementText kind q params params.length = .ok sql) :
    HasForm (formOf kind params.length) sql params.length := by
  rw [statementText_eq_ok_iff] at h
  unfold formOf
  cases hform : callForm kind with
  | view =>
    rw [hform] at h
    exact ⟨q, hq, h⟩
  | function =>
    rw [hform] at h
    exact ⟨q, hq, h⟩
  | procedure =>
    rw [hform] at h
    obtain ⟨hidents, rfl⟩ := h
    by_cases hempty : params = []
    · subst hempty
      exact ⟨q, hq, rfl, rfl⟩
    · have hlen : params.length ≠ 0 := by simpa using hempty
      have hnames : params.map Param.name ≠ [] := by simpa using hempty
      simp only [hlen, if_false]
      refine ⟨q, hq, params.map Param.name, hnames, List.length_map _, ?_, ?_⟩
      · intro a ha
        obtain ⟨p, hp, rfl⟩ := List.mem_map.mp ha
        exact hidents p hp
      · rw [execText, if_neg hnames]

section Calls

variable (lib : Libraries) (resolvedSchemasFor : String → String → Option (Json × Json))

/-- The statement a call runs: its name is qualified by identifiers, its text is
built from the declared parameters, and it binds one value for each. -/
theorem statement_of_prepare {client : Config} {endpoint : EndpointRecord} {args : Json}
    {sql : String} {bound : List BoundParam}
    (h : prepare lib resolvedSchemasFor client endpoint args = .ok (sql, bound)) :
    ∃ q inputSchema, Qualified q ∧
      inputSchemaOf resolvedSchemasFor client endpoint = .ok inputSchema ∧
      statementText endpoint.description q (orderedParams inputSchema)
        (orderedParams inputSchema).length = .ok sql ∧
      bindParams lib (orderedParams inputSchema) (requestBody args) = .ok bound := by
  obtain ⟨_, schema, name, inputSchema, db, hpath, hschema, hdb, hbuild⟩ :=
    (prepare_eq_ok_iff lib resolvedSchemasFor client endpoint args sql bound).mp h
  obtain ⟨hbound, hsql⟩ := (buildStatement_eq_ok_iff _ _ _ _ _ _ _ _ _).mp hbuild
  obtain ⟨hs, hn⟩ := parsePath_ident hpath
  refine ⟨_, inputSchema, qualifiedName_qualified hs hn ?_, hschema, hsql, hbound⟩
  intro database hdatabase
  subst hdatabase
  exact resolveExecutionDatabase_ident hdb

/-- Two prepared calls of one endpoint have one text when their bodies select
the same database. -/
theorem prepare_sql_eq {client : Config} {endpoint : EndpointRecord} {args args' : Json}
    {sql sql' : String} {bound bound' : List BoundParam}
    (hdatabase : (requestBody args).lookup executionDatabaseParam =
      (requestBody args').lookup executionDatabaseParam)
    (h : prepare lib resolvedSchemasFor client endpoint args = .ok (sql, bound))
    (h' : prepare lib resolvedSchemasFor client endpoint args' = .ok (sql', bound')) :
    sql = sql' := by
  obtain ⟨_, schema, name, inputSchema, db, hpath, hschema, hdb, hbuild⟩ :=
    (prepare_eq_ok_iff lib resolvedSchemasFor client endpoint args sql bound).mp h
  obtain ⟨_, schema', name', inputSchema', db', hpath', hschema', hdb', hbuild'⟩ :=
    (prepare_eq_ok_iff lib resolvedSchemasFor client endpoint args' sql' bound').mp h'
  obtain ⟨rfl, rfl⟩ := Prod.mk.inj (Except.ok.inj (hpath.symm.trans hpath'))
  obtain rfl := Except.ok.inj (hschema.symm.trans hschema')
  rw [resolveExecutionDatabase_congr _ _ client hdatabase] at hdb
  obtain rfl := Except.ok.inj (hdb.symm.trans hdb')
  obtain ⟨_, hsql⟩ := (buildStatement_eq_ok_iff _ _ _ _ _ _ _ _ _).mp hbuild
  obtain ⟨_, hsql'⟩ := (buildStatement_eq_ok_iff _ _ _ _ _ _ _ _ _).mp hbuild'
  exact Except.ok.inj (hsql.symm.trans hsql')

end Calls

/-- A procedure with one parameter, and surroundings in which every step
outside the process succeeds. -/
def whoSchema : Json :=
  .obj [("properties", .obj [("body", .obj [("properties", .obj
    [("loginame", .obj [("x-sql-type", .str "sysname"),
      ("x-sql-ordinal", .num (.int ⟨1, by decide, by decide⟩))])])])])]

def whoEndpoint (kind : String) : EndpointRecord := ⟨"sys_sp_who", "/sys/sp_who", some kind⟩

def whoSchemas (_ : String) (operationId : String) : Option (Json × Json) :=
  if operationId = "sys_sp_who" then some (whoSchema, .null) else none

def writableConfig : Config := { Config.ofRequired "localhost" .sqlServer with readOnly := false }

def answering (rows : List Row) : Answers where
  resolveTdsAuth := .ok (.sqlServer "sa" "secret")
  buildPool := .ok ()
  getConnection := .ok ()
  firstResult := .ok rows

def emptyBody : Json := .obj [("body", .obj [])]

def localPool : Pool :=
  ⟨tdsConfig writableConfig (.sqlServer "sa" "secret"), writableConfig.poolMaxSize⟩

theorem who_query_mem :
    .query localPool "EXEC [sys].[sp_who] @loginame = @P1" [.string none] ∈
      (execute numericLibraries whoSchemas writableConfig (whoEndpoint "SQL_STORED_PROCEDURE")
        emptyBody (answering []) []).actions :=
  query_mem_of_actions_eq rfl

/-- A statement that is run has exactly one of the four forms, and two calls of
one endpoint whose bodies select the same database run the same text. -/
theorem query_has_form (lib : Libraries)
    (resolvedSchemasFor : String → String → Option (Json × Json)) (client : Config)
    (endpoint : EndpointRecord) :
    (∀ (args : Json) (answers : Answers) (pools : Pools) (pool : Pool) (sql : String)
        (bound : List BoundParam),
      .query pool sql bound ∈
        (execute lib resolvedSchemasFor client endpoint args answers pools).actions →
      ∃! form, HasForm form sql bound.length) ∧
    ∀ (args args' : Json) (answers answers' : Answers) (pools pools' : Pools)
        (pool pool' : Pool) (sql sql' : String) (bound bound' : List BoundParam),
      (requestBody args).lookup executionDatabaseParam =
        (requestBody args').lookup executionDatabaseParam →
      .query pool sql bound ∈
        (execute lib resolvedSchemasFor client endpoint args answers pools).actions →
      .query pool' sql' bound' ∈
        (execute lib resolvedSchemasFor client endpoint args' answers' pools').actions →
      sql = sql' := by
  constructor
  · intro args answers pools pool sql bound hquery
    have hprepare := prepare_of_query_mem lib resolvedSchemasFor hquery
    obtain ⟨q, inputSchema, hq, _, hsql, hbound⟩ :=
      statement_of_prepare lib resolvedSchemasFor hprepare
    have hform := hasForm_of_statementText hq hsql
    rw [← length_of_mapM hbound] at hform
    refine ⟨_, hform, ?_⟩
    intro form hother
    rw [← shownForm_of_hasForm hother, shownForm_of_hasForm hform]
  · intro args args' answers answers' pools pools' pool pool' sql sql' bound bound' hdatabase
      hquery hquery'
    exact prepare_sql_eq lib resolvedSchemasFor hdatabase
      (prepare_of_query_mem lib resolvedSchemasFor hquery)
      (prepare_of_query_mem lib resolvedSchemasFor hquery')

theorem who_query_has_form :
    ∃! form, HasForm form "EXEC [sys].[sp_who] @loginame = @P1" 1 :=
  (query_has_form numericLibraries whoSchemas writableConfig
    (whoEndpoint "SQL_STORED_PROCEDURE")).1 emptyBody (answering []) [] localPool
    "EXEC [sys].[sp_who] @loginame = @P1" [.string none] who_query_mem

/-- Every text that is built starts as a query or as a procedure call, and the
kinds that may not write are those of a query. -/
theorem isWritableKind_eq_false_iff_select {lib : Libraries} {schema name : String}
    {kind : Option String} {params : List Param} {body : Fields}
    {executionDatabase : Option String} {sql : String} {bound : List BoundParam}
    (h : buildStatement lib schema name kind params body executionDatabase = .ok (sql, bound)) :
    (isWritableKind kind = false ↔ "SELECT ".toList <+: sql.toList) ∧
      (isWritableKind kind = true ↔ "EXEC ".toList <+: sql.toList) := by
  obtain ⟨_, hsql⟩ := (buildStatement_eq_ok_iff _ _ _ _ _ _ _ _ _).mp h
  rw [statementText_eq_ok_iff] at hsql
  cases hform : callForm kind with
  | view =>
    rw [hform] at hsql
    have hfalse := (isWritableKind_eq_false_iff kind).mpr (by rw [hform]; decide)
    subst hsql
    simp [hfalse]
  | function =>
    rw [hform] at hsql
    have hfalse := (isWritableKind_eq_false_iff kind).mpr (by rw [hform]; decide)
    subst hsql
    simp [hfalse]
  | procedure =>
    rw [hform] at hsql
    have htrue := (isWritableKind_iff kind).mpr hform
    obtain ⟨_, rfl⟩ := hsql
    unfold execText
    split <;> simp [htrue]

/-- In read-only mode only queries run and a kind that may write is refused
before anything is sent; the kinds refused are exactly those whose statement is
no query. -/
theorem read_only_runs_queries (lib : Libraries)
    (resolvedSchemasFor : String → String → Option (Json × Json)) :
    (∀ (client : Config) (endpoint : EndpointRecord) (args : Json) (answers : Answers)
        (pools : Pools), client.readOnly = true →
      (∀ pool sql bound, .query pool sql bound ∈
          (execute lib resolvedSchemasFor client endpoint args answers pools).actions →
        (HasForm .view sql bound.length ∨ HasForm .function sql bound.length) ∧
          ¬ "EXEC ".toList <+: sql.toList) ∧
      (isWritableKind endpoint.description = true →
        (execute lib resolvedSchemasFor client endpoint args answers pools).actions = [] ∧
          ∃ message, (execute lib resolvedSchemasFor client endpoint args answers pools).result =
            .error (.error message))) ∧
    ∀ (schema name : String) (kind : Option String) (params : List Param) (body : Fields)
        (executionDatabase : Option String) (sql : String) (bound : List BoundParam),
      buildStatement lib schema name kind params body executionDatabase = .ok (sql, bound) →
        (isWritableKind kind = false ↔ "SELECT ".toList <+: sql.toList) := by
  refine ⟨?_, fun schema name kind params body db sql bound h =>
    (isWritableKind_eq_false_iff_select h).1⟩
  intro client endpoint args answers pools hreadOnly
  constructor
  · intro pool sql bound hquery
    have hprepare := prepare_of_query_mem lib resolvedSchemasFor hquery
    obtain ⟨hallowed, schema, name, inputSchema, db, _, _, _, hbuild⟩ :=
      (prepare_eq_ok_iff lib resolvedSchemasFor client endpoint args sql bound).mp hprepare
    obtain ⟨q, inputSchema', hq, _, hsql, hbound⟩ :=
      statement_of_prepare lib resolvedSchemasFor hprepare
    have hkind : isWritableKind endpoint.description = false := by
      simpa [hreadOnly] using hallowed
    have hform := hasForm_of_statementText hq hsql
    rw [← length_of_mapM hbound] at hform
    refine ⟨?_, ?_⟩
    · unfold formOf at hform
      cases hcall : callForm endpoint.description with
      | view => exact Or.inl (by simpa only [hcall] using hform)
      | function => exact Or.inr (by simpa only [hcall] using hform)
      | procedure => exact absurd hcall ((isWritableKind_eq_false_iff _).mp hkind)
    · intro hexec
      have htrue := (isWritableKind_eq_false_iff_select hbuild).2.mpr hexec
      rw [hkind] at htrue
      contradiction
  · intro hkind
    obtain ⟨message, hrefused⟩ :=
      prepare_refused lib resolvedSchemasFor hreadOnly hkind args
    rw [execute_of_prepare_error lib resolvedSchemasFor hrefused]
    exact ⟨rfl, message, rfl⟩

def readOnlyConfig : Config := Config.ofRequired "localhost" .sqlServer

theorem view_query_mem :
    .query localPool "SELECT * FROM [sys].[sp_who]" [.string none] ∈
      (execute numericLibraries whoSchemas readOnlyConfig (whoEndpoint "VIEW") emptyBody
        (answering []) []).actions :=
  query_mem_of_actions_eq rfl

theorem read_only_view_runs :
    (HasForm .view "SELECT * FROM [sys].[sp_who]" 1 ∨
        HasForm .function "SELECT * FROM [sys].[sp_who]" 1) ∧
      ¬ "EXEC ".toList <+: "SELECT * FROM [sys].[sp_who]".toList :=
  (((read_only_runs_queries numericLibraries whoSchemas).1 readOnlyConfig (whoEndpoint "VIEW")
    emptyBody (answering []) [] rfl).1 localPool "SELECT * FROM [sys].[sp_who]" [.string none]
    view_query_mem)

/-- The call form that the header of the client documents for a kind. -/
def documentedText (kind : Option String) (q : String) (names : List String) : String :=
  match kind with
  | some k =>
    if k = "VIEW" then "SELECT * FROM " ++ q
    else if contains k "TABLE_VALUED_FUNCTION" then
      "SELECT * FROM " ++ q ++ "(" ++ placeholders names.length ++ ")"
    else if endsWith k "_FUNCTION" then
      "SELECT " ++ q ++ "(" ++ placeholders names.length ++ ")"
    else execText q names
  | none => execText q names

/-- The documented text, with the values bound in parameter order. -/
def DocumentedCall (lib : Libraries) (kind : Option String) (q : String)
    (params : List Param) (body : Fields) (sql : String) (bound : List BoundParam) : Prop :=
  sql = documentedText kind q (params.map Param.name) ∧ bindParams lib params body = .ok bound

def ScalarFunctionKind (kind : Option String) : Prop :=
  ∃ k, kind = some k ∧ endsWith k "_FUNCTION" = true ∧
    contains k "TABLE_VALUED_FUNCTION" = false

theorem select_from_ne_select (q args : String) :
    "SELECT * FROM " ++ q ++ "(" ++ args ++ ")" ≠ "SELECT " ++ q ++ "(" ++ args ++ ")" := by
  intro h
  have hlength := congrArg String.length h
  simp only [String.length_append] at hlength
  have hfrom : "SELECT * FROM ".length = 14 := by decide
  have hselect : "SELECT ".length = 7 := by decide
  omega

/-- Built statements have the documented form exactly for the kinds that are
not scalar functions: those are called in a `FROM` clause. -/
theorem buildStatement_documented_iff (lib : Libraries) (schema name : String)
    (kind : Option String) (params : List Param) (body : Fields)
    (executionDatabase : Option String) (sql : String) (bound : List BoundParam)
    (h : buildStatement lib schema name kind params body executionDatabase = .ok (sql, bound)) :
    DocumentedCall lib kind (qualifiedName schema name executionDatabase) params body sql bound ↔
      ¬ ScalarFunctionKind kind := by
  obtain ⟨hbound, hsql⟩ := (buildStatement_eq_ok_iff _ _ _ _ _ _ _ _ _).mp h
  rw [statementText_eq_ok_iff] at hsql
  generalize qualifiedName schema name executionDatabase = q at hsql ⊢
  simp only [DocumentedCall, hbound, and_true]
  cases kind with
  | none =>
    obtain ⟨_, rfl⟩ := hsql
    simp [documentedText, ScalarFunctionKind]
  | some k =>
    by_cases hview : k = "VIEW"
    · subst hview
      have hscalar : endsWith "VIEW" "_FUNCTION" = false := by decide
      simpa [documentedText, ScalarFunctionKind, hscalar, callForm] using hsql
    · rw [callForm_of_ne_view k hview] at hsql
      cases htable : contains k "TABLE_VALUED_FUNCTION" with
      | true =>
        simp only [htable, Bool.or_true, if_true] at hsql
        simpa [documentedText, ScalarFunctionKind, hview, htable] using hsql
      | false =>
        cases hscalar : endsWith k "_FUNCTION" with
        | true =>
          simp only [hscalar, Bool.true_or, if_true] at hsql
          subst hsql
          have hdocumented : documentedText (some k) q (params.map Param.name) =
              "SELECT " ++ q ++ "(" ++ placeholders params.length ++ ")" := by
            simp [documentedText, hview, htable, hscalar]
          rw [hdocumented]
          exact iff_of_false (select_from_ne_select q _) fun hnot => hnot ⟨k, rfl, hscalar, htable⟩
        | false =>
          simp only [htable, hscalar, Bool.or_false, Bool.false_eq_true, if_false] at hsql
          simpa [documentedText, ScalarFunctionKind, hview, htable, hscalar] using hsql.2

theorem inline_function_documented :
    DocumentedCall numericLibraries (some "SQL_INLINE_TABLE_VALUED_FUNCTION") "[sys].[fn]"
      [⟨"id", 1, "int"⟩] [] "SELECT * FROM [sys].[fn](@P1)" [.i32 none] := by
  refine (buildStatement_documented_iff numericLibraries "sys" "fn"
    (some "SQL_INLINE_TABLE_VALUED_FUNCTION") [⟨"id", 1, "int"⟩] [] none
    "SELECT * FROM [sys].[fn](@P1)" [.i32 none] rfl).mpr ?_
  intro hparts
  rcases hparts with ⟨k, hk, _, htable⟩
  obtain rfl := Option.some.inj hk
  exact absurd htable (by decide)

/-- A scalar function is called in a `FROM` clause, which it cannot stand in. -/
theorem scalar_function_not_documented :
    buildStatement numericLibraries "sys" "fn" (some "SQL_SCALAR_FUNCTION") [] [] none =
        .ok ("SELECT * FROM [sys].[fn]()", []) ∧
      ¬ DocumentedCall numericLibraries (some "SQL_SCALAR_FUNCTION")
        (qualifiedName "sys" "fn" none) [] [] "SELECT * FROM [sys].[fn]()" [] := by
  refine ⟨rfl, ?_⟩
  intro hparts
  rcases hparts with ⟨htext, _⟩
  exact absurd htext (by decide)

/-- The parameters that the body supplies, each bound to its own value and
assigned by name; none at all give a bare call. -/
def AssignsSupplied (lib : Libraries) (params : List Param) (body : Fields) (sql : String)
    (bound : List BoundParam) : Prop :=
  let supplied := params.filter fun p => p.name ∈ keys body
  ∃ q, Qualified q ∧ sql = execText q (supplied.map Param.name) ∧
    bindParams lib supplied body = .ok bound

/-- A procedure call assigns exactly the supplied parameters when and only when
the body supplies every declared one. -/
theorem procedure_assigns_supplied_iff (lib : Libraries)
    (resolvedSchemasFor : String → String → Option (Json × Json)) (client : Config)
    (endpoint : EndpointRecord) (args : Json) (answers : Answers) (pools : Pools)
    (inputSchema : Json) (pool : Pool) (sql : String) (bound : List BoundParam)
    (hkind : isWritableKind endpoint.description = true)
    (hschema : inputSchemaOf resolvedSchemasFor client endpoint = .ok inputSchema)
    (hquery : .query pool sql bound ∈
      (execute lib resolvedSchemasFor client endpoint args answers pools).actions) :
    AssignsSupplied lib (orderedParams inputSchema) (requestBody args) sql bound ↔
      ∀ p ∈ orderedParams inputSchema, p.name ∈ keys (requestBody args) := by
  obtain ⟨q, inputSchema', hq, hschema', hsql, hbound⟩ :=
    statement_of_prepare lib resolvedSchemasFor (prepare_of_query_mem lib resolvedSchemasFor hquery)
  obtain rfl := Except.ok.inj (hschema'.symm.trans hschema)
  generalize orderedParams inputSchema' = params at hsql hbound ⊢
  rw [statementText_eq_ok_iff, (isWritableKind_iff _).mp hkind] at hsql
  obtain ⟨hidents, hsql⟩ := hsql
  have hcount : ∀ {q' : String}, Qualified q' → ∀ ps : List Param, (∀ p ∈ ps, Ident p.name) →
      (execText q' (ps.map Param.name)).toList.count '=' = ps.length := by
    intro q' hq' ps hps
    rw [count_eq_execText hq', List.length_map]
    intro a ha
    obtain ⟨p, hp, rfl⟩ := List.mem_map.mp ha
    exact hps p hp
  constructor
  · intro hparts
    rcases hparts with ⟨q', hq', hsupplied, _⟩
    -- Both texts have one equals sign for each assignment, so nothing is filtered out.
    have hlength := congrArg (fun text => text.toList.count '=') (hsql.symm.trans hsupplied)
    rw [hcount hq params hidents,
      hcount hq' _ fun p hp => hidents p (List.mem_of_mem_filter hp)] at hlength
    intro p hp
    simpa using List.length_filter_eq_length_iff.mp hlength.symm p hp
  · intro hall
    have hfilter : params.filter (fun p => p.name ∈ keys (requestBody args)) = params :=
      List.filter_eq_self.mpr fun p hp => by simpa using hall p hp
    refine ⟨q, hq, ?_, ?_⟩
    · rw [hfilter]
      exact hsql
    · rw [hfilter]
      exact hbound

def loginBody : Json := .obj [("body", .obj [("loginame", .str "sa")])]

theorem login_query_mem :
    .query localPool "EXEC [sys].[sp_who] @loginame = @P1" [.string (some "sa")] ∈
      (execute numericLibraries whoSchemas writableConfig (whoEndpoint "SQL_STORED_PROCEDURE")
        loginBody (answering []) []).actions :=
  query_mem_of_actions_eq rfl

theorem orderedParams_whoSchema : orderedParams whoSchema = [⟨"loginame", 1, "sysname"⟩] := rfl

theorem login_assigned :
    AssignsSupplied numericLibraries (orderedParams whoSchema) (requestBody loginBody)
      "EXEC [sys].[sp_who] @loginame = @P1" [.string (some "sa")] := by
  refine (procedure_assigns_supplied_iff numericLibraries whoSchemas writableConfig
    (whoEndpoint "SQL_STORED_PROCEDURE") loginBody (answering []) [] whoSchema localPool
    "EXEC [sys].[sp_who] @loginame = @P1" [.string (some "sa")] (by decide) rfl
    login_query_mem).mpr ?_
  intro p hp
  rw [orderedParams_whoSchema, List.mem_singleton] at hp
  subst hp
  decide

/-- A parameter that the caller leaves out is assigned NULL. -/
theorem omitted_parameter_assigned :
    .query localPool "EXEC [sys].[sp_who] @loginame = @P1" [.string none] ∈
        (execute numericLibraries whoSchemas writableConfig (whoEndpoint "SQL_STORED_PROCEDURE")
          emptyBody (answering []) []).actions ∧
      ¬ AssignsSupplied numericLibraries (orderedParams whoSchema) (requestBody emptyBody)
        "EXEC [sys].[sp_who] @loginame = @P1" [.string none] := by
  refine ⟨who_query_mem, ?_⟩
  intro hparts
  rcases hparts with ⟨q, hq, htext, _⟩
  have hcount := congrArg (fun text => text.toList.count '=') htext
  have hnames : ((orderedParams whoSchema).filter fun p =>
      p.name ∈ keys (requestBody emptyBody)).map Param.name = [] := by decide
  rw [hnames, count_eq_execText hq [] (by simp)] at hcount
  exact absurd hcount (by decide)

end SqlServerMcp.StatementForms
