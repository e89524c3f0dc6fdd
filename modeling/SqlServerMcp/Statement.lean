import SqlServerMcp.ConfigSchema
import SqlServerMcp.Ranking
import SqlServerMcp.SqlType

/-!
The T-SQL statement of one operation call. The endpoint path names the object,
the resolved input schema its parameters, and the request body the arguments;
the arguments are bound as placeholders and never stand in the text.
-/
namespace SqlServerMcp.Statement

open AssocMap ConfigSchema FixedWidth JsonValue Ranking Results SqlType SqlValue Text

/-- The synthetic body property that selects the database to run against. -/
def executionDatabaseParam : String := "execution_database"

def isIdentChar (c : Char) : Bool := c.isAlphanum || c = '_'

def validateIdent (ident : String) : Except Fault String :=
  if ident ≠ "" ∧ ident.toList.all isIdentChar then .ok ident
  else .error (.error ("identifier '" ++ ident ++ "' contains characters outside [A-Za-z0-9_]"))

/-- The schema and the name in a path of the form `/<schema>/<name>`. -/
def parsePath (path : String) : Except Fault (String × String) :=
  match splitOnce '/' (path.toList.dropWhile (· = '/')) with
  | some (schema, name) =>
    if schema ≠ [] ∧ name ≠ [] then do
      let schema ← validateIdent (String.ofList schema)
      let name ← validateIdent (String.ofList name)
      .ok (schema, name)
    else .error (.error
      ("endpoint path '" ++ path ++ "' is not in the expected /<schema>/<name> shape"))
  | none => .error (.error
      ("endpoint path '" ++ path ++ "' is not in the expected /<schema>/<name> shape"))

/-- A bracketed identifier, with every closing bracket in it doubled. -/
def quoteIdent (ident : String) : String :=
  "[" ++ String.ofList (ident.toList.flatMap fun c => if c = ']' then [']', ']'] else [c]) ++ "]"

/-- The database of the body, else the configured default, else none. -/
def resolveExecutionDatabase (body : Fields) (config : Config) :
    Except Fault (Option String) :=
  match body.lookup executionDatabaseParam with
  | some value =>
    match value.asStr with
    | some requested => (validateIdent requested).map some
    | none => .error (.error ("'" ++ executionDatabaseParam ++ "' must be a string"))
  | none =>
    match config.defaultDatabase with
    | some database => (validateIdent database).map some
    | none => .ok none

structure Param where
  name : String
  ordinal : ℕ
  xSqlType : String

/-- The parameter properties under `body`, inline or behind one reference into
the schema's own definitions. -/
def requestProperties (inputSchema : Json) : Option Fields := do
  let bodySchema ← (← inputSchema.get "properties").get "body"
  let resolved ← match (bodySchema.get "$ref").bind Json.asStr with
    | some reference => do
      let name ← stripPrefix "#/$defs/" reference
      (← inputSchema.get "$defs").get name
    | none => some bodySchema
  (← resolved.get "properties").asObject

def paramOf (property : String × Json) : Param where
  name := property.1
  ordinal := ((property.2.get "x-sql-ordinal").bind Json.asU64).getD 0
  xSqlType := ((property.2.get "x-sql-type").bind Json.asStr).getD "nvarchar(max)"

/-- The declared parameters but the synthetic one, by ordinal; the sort is
stable. -/
def orderedParams (inputSchema : Json) : List Param :=
  let params := (((requestProperties inputSchema).getD []).filter
    fun property => property.1 ≠ executionDatabaseParam).map paramOf
  rank Param.ordinal params

/-- Views and functions only read; any other kind, or none, may write. -/
def isWritableKind (kind : Option String) : Bool :=
  match kind with
  | some "VIEW" => false
  | some k => !(endsWith k "_FUNCTION" || contains k "TABLE_VALUED_FUNCTION")
  | none => true

def qualifiedName (schema name : String) (executionDatabase : Option String) : String :=
  match executionDatabase with
  | some db => quoteIdent db ++ "." ++ quoteIdent schema ++ "." ++ quoteIdent name
  | none => quoteIdent schema ++ "." ++ quoteIdent name

def argument (body : Fields) (p : Param) : Json := (body.lookup p.name).getD .null

/-- One bound value for each parameter, `null` for an absent argument. -/
def bindParams (lib : Libraries) (params : List Param) (body : Fields) :
    Except Fault (List BoundParam) :=
  params.mapM fun p => jsonToParam lib (argument body p) p.xSqlType

def placeholders (count : ℕ) : String :=
  ", ".intercalate ((List.range count).map fun i => "@P" ++ toString (i + 1))

theorem placeholders_zero : placeholders 0 = "" := String.intercalate_nil

theorem placeholders_one : placeholders 1 = "@P1" := String.intercalate_singleton

/-- Each further placeholder follows a comma and has the next number. -/
theorem placeholders_succ {count : ℕ} (h : 0 < count) :
    placeholders (count + 1) = placeholders count ++ ", " ++ ("@P" ++ toString (count + 1)) := by
  have hne : (List.range count).map (fun i => "@P" ++ toString (i + 1)) ≠ [] := by
    simpa using h.ne'
  rw [placeholders, placeholders, List.range_succ, List.map_append, List.map_singleton,
    String.intercalate_append_of_ne_nil hne (List.cons_ne_nil _ _),
    String.intercalate_singleton]

example : placeholders 3 = "@P1, @P2, @P3" := by decide

/-- The assignment of the parameter at position `i`, counted from zero. -/
def assignment (entry : Param × ℕ) : Except Fault String := do
  let name ← validateIdent entry.1.name
  .ok ("@" ++ name ++ " = @P" ++ toString (entry.2 + 1))

/-- A procedure call names its arguments; without any it is bare. -/
def execStatement (qualified : String) (params : List Param) (boundCount : ℕ) :
    Except Fault String :=
  if boundCount = 0 then .ok ("EXEC " ++ qualified)
  else do
    let assignments ← params.zipIdx.mapM assignment
    .ok ("EXEC " ++ qualified ++ " " ++ ", ".intercalate assignments)

/-- The text of the call, given how many values were bound. -/
def statementText (kind : Option String) (qualified : String) (params : List Param)
    (boundCount : ℕ) : Except Fault String :=
  match kind with
  | some "VIEW" => .ok ("SELECT * FROM " ++ qualified)
  | some k =>
    if endsWith k "_FUNCTION" || contains k "TABLE_VALUED_FUNCTION" then
      .ok ("SELECT * FROM " ++ qualified ++ "(" ++ placeholders boundCount ++ ")")
    else execStatement qualified params boundCount
  | none => execStatement qualified params boundCount

def buildStatement (lib : Libraries) (schema name : String) (kind : Option String)
    (params : List Param) (body : Fields) (executionDatabase : Option String) :
    Except Fault (String × List BoundParam) := do
  let bound ← bindParams lib params body
  let sql ← statementText kind (qualifiedName schema name executionDatabase) params bound.length
  .ok (sql, bound)

def Ident (s : String) : Prop := s ≠ "" ∧ ∀ c ∈ s.toList, isIdentChar c = true

theorem validateIdent_eq_ok_iff (s r : String) :
    validateIdent s = .ok r ↔ Ident s ∧ r = s := by
  simp only [validateIdent, Ident, List.all_eq_true]
  split
  · rename_i h
    constructor
    · intro hs
      exact ⟨h, (Except.ok.inj hs).symm⟩
    · intro hparts
      rcases hparts with ⟨_, rfl⟩
      rfl
  · rename_i h
    constructor
    · intro hs
      cases hs
    · intro hparts
      rcases hparts with ⟨hident, _⟩
      exact absurd hident h

theorem Ident.notMem {s : String} (h : Ident s) {c : Char} (hc : isIdentChar c = false) :
    c ∉ s.toList := by
  intro hmem
  have htrue := h.2 c hmem
  simp [hc] at htrue

theorem quoteIdent_of_ident {s : String} (h : Ident s) : quoteIdent s = "[" ++ s ++ "]" := by
  have hkeep : (s.toList.flatMap fun c => if c = ']' then [']', ']'] else [c]) = s.toList := by
    have hnot := h.notMem (c := ']') (by decide)
    generalize s.toList = l at hnot
    induction l with
    | nil => rfl
    | cons c rest ih =>
      simp only [List.mem_cons, not_or] at hnot
      rw [List.flatMap_cons, ih hnot.2, if_neg (Ne.symm hnot.1)]
      rfl
  unfold quoteIdent
  rw [hkeep, String.ofList_toList]

theorem parsePath_ident {path schema name : String} (h : parsePath path = .ok (schema, name)) :
    Ident schema ∧ Ident name := by
  unfold parsePath at h
  split at h
  · split at h
    · obtain ⟨schema', hschema, h⟩ := (bind_eq_ok _ _ _).mp h
      obtain ⟨name', hname, h⟩ := (bind_eq_ok _ _ _).mp h
      obtain ⟨rfl, rfl⟩ := Prod.mk.inj (Except.ok.inj h)
      obtain ⟨hs, rfl⟩ := (validateIdent_eq_ok_iff _ _).mp hschema
      obtain ⟨hn, rfl⟩ := (validateIdent_eq_ok_iff _ _).mp hname
      exact ⟨hs, hn⟩
    · cases h
  · cases h

theorem resolveExecutionDatabase_ident {body : Fields} {config : Config} {db : String}
    (h : resolveExecutionDatabase body config = .ok (some db)) : Ident db := by
  have hmap : ∀ s, (validateIdent s).map some = .ok (some db) → Ident db := by
    intro s hs
    obtain ⟨r, hr, hsome⟩ := (map_eq_ok _ _ _).mp hs
    obtain ⟨hident, rfl⟩ := (validateIdent_eq_ok_iff _ _).mp hr
    obtain rfl := Option.some.inj hsome
    exact hident
  unfold resolveExecutionDatabase at h
  split at h
  · split at h
    · exact hmap _ h
    · cases h
  · split at h
    · exact hmap _ h
    · cases h

/-- The resolved database depends on the body through the synthetic property
only. -/
theorem resolveExecutionDatabase_congr (body body' : Fields) (config : Config)
    (h : body.lookup executionDatabaseParam = body'.lookup executionDatabaseParam) :
    resolveExecutionDatabase body config = resolveExecutionDatabase body' config := by
  unfold resolveExecutionDatabase
  rw [h]

theorem buildStatement_eq_ok_iff (lib : Libraries) (schema name : String)
    (kind : Option String) (params : List Param) (body : Fields)
    (executionDatabase : Option String) (sql : String) (bound : List BoundParam) :
    buildStatement lib schema name kind params body executionDatabase = .ok (sql, bound) ↔
      bindParams lib params body = .ok bound ∧
        statementText kind (qualifiedName schema name executionDatabase) params params.length =
          .ok sql := by
  unfold buildStatement
  rw [bind_eq_ok]
  constructor
  · intro hparts
    rcases hparts with ⟨bound', hbound, htext⟩
    obtain ⟨sql', hsql, hpair⟩ := (bind_eq_ok _ _ _).mp htext
    obtain ⟨rfl, rfl⟩ := Prod.mk.inj (Except.ok.inj hpair)
    rw [length_of_mapM hbound] at hsql
    exact ⟨hbound, hsql⟩
  · intro hparts
    rcases hparts with ⟨hbound, hsql⟩
    refine ⟨bound, hbound, (bind_eq_ok _ _ _).mpr ⟨sql, ?_, rfl⟩⟩
    rw [length_of_mapM hbound]
    exact hsql

/-- The form of the statement of a kind. -/
inductive CallForm where
  | view
  | function
  | procedure
  deriving DecidableEq

def callForm (kind : Option String) : CallForm :=
  match kind with
  | some k =>
    if k = "VIEW" then .view
    else if endsWith k "_FUNCTION" || contains k "TABLE_VALUED_FUNCTION" then .function
    else .procedure
  | none => .procedure

def namedAssignments (names : List String) : List String :=
  names.zipIdx.map fun entry => "@" ++ entry.1 ++ " = @P" ++ toString (entry.2 + 1)

/-- The text that runs a procedure with the named parameters. -/
def execText (qualified : String) (names : List String) : String :=
  if names = [] then "EXEC " ++ qualified
  else "EXEC " ++ qualified ++ " " ++ ", ".intercalate (namedAssignments names)

theorem callForm_of_ne_view (k : String) (h : k ≠ "VIEW") :
    callForm (some k) =
      if endsWith k "_FUNCTION" || contains k "TABLE_VALUED_FUNCTION" then .function
      else .procedure := by
  simp only [callForm, h, if_false]

theorem isWritableKind_iff (kind : Option String) :
    isWritableKind kind = true ↔ callForm kind = .procedure := by
  unfold isWritableKind
  split
  · simp [callForm]
  · rename_i k hview
    rw [callForm_of_ne_view k hview]
    by_cases hf : (endsWith k "_FUNCTION" || contains k "TABLE_VALUED_FUNCTION") = true
    · simp [hf]
    · simp [hf]
  · simp [callForm]

theorem isWritableKind_eq_false_iff (kind : Option String) :
    isWritableKind kind = false ↔ callForm kind ≠ .procedure := by
  rw [Bool.eq_false_iff, ne_eq, isWritableKind_iff]

theorem statementText_eq (kind : Option String) (qualified : String) (params : List Param)
    (boundCount : ℕ) :
    statementText kind qualified params boundCount =
      match callForm kind with
      | .view => .ok ("SELECT * FROM " ++ qualified)
      | .function => .ok ("SELECT * FROM " ++ qualified ++ "(" ++ placeholders boundCount ++ ")")
      | .procedure => execStatement qualified params boundCount := by
  unfold statementText
  split
  · rfl
  · rename_i k hview
    rw [callForm_of_ne_view k hview]
    by_cases hf : (endsWith k "_FUNCTION" || contains k "TABLE_VALUED_FUNCTION") = true
    · rw [if_pos hf, if_pos hf]
    · rw [if_neg hf, if_neg hf]
  · rfl

theorem assignment_eq_ok_iff (entry : Param × ℕ) (text : String) :
    assignment entry = .ok text ↔
      Ident entry.1.name ∧ text = "@" ++ entry.1.name ++ " = @P" ++ toString (entry.2 + 1) := by
  unfold assignment
  rw [bind_eq_ok]
  constructor
  · intro hparts
    rcases hparts with ⟨name, hname, htext⟩
    obtain ⟨hident, rfl⟩ := (validateIdent_eq_ok_iff _ _).mp hname
    exact ⟨hident, (Except.ok.inj htext).symm⟩
  · intro hparts
    rcases hparts with ⟨hident, rfl⟩
    exact ⟨entry.1.name, (validateIdent_eq_ok_iff _ _).mpr ⟨hident, rfl⟩, rfl⟩

theorem zipIdx_mapM_assignment_iff (params : List Param) (start : ℕ) (texts : List String) :
    (params.zipIdx start).mapM assignment = .ok texts ↔
      (∀ p ∈ params, Ident p.name) ∧ texts = ((params.map Param.name).zipIdx start).map
        fun entry => "@" ++ entry.1 ++ " = @P" ++ toString (entry.2 + 1) := by
  rw [mapM_eq_ok_iff]
  induction params generalizing start texts with
  | nil => simp
  | cons p rest ih =>
    simp only [List.zipIdx_cons, List.map_cons, List.forall_mem_cons]
    constructor
    · intro h
      cases h with
      | @cons _ text _ texts' htext hrest =>
        obtain ⟨hident, rfl⟩ := (assignment_eq_ok_iff _ _).mp htext
        obtain ⟨hidents, rfl⟩ := (ih (start + 1) texts').mp hrest
        exact ⟨⟨hident, hidents⟩, rfl⟩
    · intro hparts
      rcases hparts with ⟨⟨hident, hidents⟩, rfl⟩
      refine List.Forall₂.cons ?_ ((ih (start + 1) _).mpr ⟨hidents, rfl⟩)
      exact (assignment_eq_ok_iff _ _).mpr ⟨hident, rfl⟩

theorem execStatement_eq_ok_iff (qualified : String) (params : List Param) (sql : String) :
    execStatement qualified params params.length = .ok sql ↔
      (∀ p ∈ params, Ident p.name) ∧ sql = execText qualified (params.map Param.name) := by
  unfold execStatement execText
  by_cases hempty : params = []
  · subst hempty
    simp [eq_comm]
  · have hlen : params.length ≠ 0 := by simpa using hempty
    have hnames : params.map Param.name ≠ [] := by simpa using hempty
    rw [if_neg hlen, if_neg hnames, bind_eq_ok]
    constructor
    · intro hparts
      rcases hparts with ⟨texts, htexts, htext⟩
      obtain ⟨hidents, rfl⟩ := (zipIdx_mapM_assignment_iff params 0 texts).mp htexts
      exact ⟨hidents, (Except.ok.inj htext).symm⟩
    · intro hparts
      rcases hparts with ⟨hidents, rfl⟩
      exact ⟨_, (zipIdx_mapM_assignment_iff params 0 _).mpr ⟨hidents, rfl⟩, rfl⟩

/-- The text of a call, by the form of its kind. -/
theorem statementText_eq_ok_iff (kind : Option String) (qualified : String)
    (params : List Param) (sql : String) :
    statementText kind qualified params params.length = .ok sql ↔
      match callForm kind with
      | .view => sql = "SELECT * FROM " ++ qualified
      | .function =>
        sql = "SELECT * FROM " ++ qualified ++ "(" ++ placeholders params.length ++ ")"
      | .procedure =>
        (∀ p ∈ params, Ident p.name) ∧ sql = execText qualified (params.map Param.name) := by
  rw [statementText_eq]
  cases callForm kind with
  | view => simp [eq_comm]
  | function => simp [eq_comm]
  | procedure => exact execStatement_eq_ok_iff qualified params sql

end SqlServerMcp.Statement
