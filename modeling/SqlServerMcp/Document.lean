import Mathlib.Data.Finset.Card
import SqlServerMcp.DocumentTexts
import SqlServerMcp.Operations

/-!
The document that the generator writes. The operations are ranked by how many
versions know them, by what is known of them and by their names; the first five
hundred are kept. Each gets a path, and its schemas go under keys that are made
of its operation id, which joins schema and name by an underscore.
-/
namespace SqlServerMcp.Document

open AssocMap DocumentTexts Generator Grouping JsonValue Operations Ranking Text

def topNPerVersion : ℕ := 500

/-- What was extracted from each version. -/
abbrev DataRoot := Map String (Database → Dump)

def emptyDump : Dump := ⟨[], [], [], []⟩

def dumpsOf (data : DataRoot) (version : String) : Database → Dump :=
  (data.get version).getD fun _ => emptyDump

def discoverVersions (data : DataRoot) : List String := sortOn id (keys data.entries)

def seenInVersion (dumps : Database → Dump) : List OperationKey :=
  ((listings dumps).map fun x => x.2.key).dedup

/-- The keys of each version, whatever the database. -/
def occurrences (data : DataRoot) : List (String × OperationKey) :=
  (discoverVersions data).flatMap fun version =>
    (seenInVersion (dumpsOf data version)).map fun k => (version, k)

def computePresence (data : DataRoot) : Map OperationKey (Finset String) :=
  gather Prod.snd ∅ (fun versions x => insert x.1 versions) (occurrences data)

def presenceCount (data : DataRoot) (version : String) (k : OperationKey) : ℕ :=
  (((computePresence data).get k).getD {version}).card

/-- Procedures before functions, functions before views. -/
def typeTiers : List (String × ℕ) :=
  [("SQL_STORED_PROCEDURE", 0),
   ("CLR_STORED_PROCEDURE", 0),
   ("EXTENDED_STORED_PROCEDURE", 0),
   ("SQL_SCALAR_FUNCTION", 1),
   ("SQL_INLINE_TABLE_VALUED_FUNCTION", 1),
   ("SQL_TABLE_VALUED_FUNCTION", 1),
   ("CLR_SCALAR_FUNCTION", 1),
   ("CLR_TABLE_VALUED_FUNCTION", 1),
   ("VIEW", 2)]

abbrev RankKey := ℤ ×ₗ ℕ ×ₗ ℕ ×ₗ String ×ₗ String

def completeness (hasParams hasColumns : Bool) : ℕ :=
  if hasParams ∧ hasColumns then 0
  else if hasColumns then 1
  else if hasParams then 2
  else 3

def rankKey (presence : OperationKey → ℕ) (op : Operation) : RankKey :=
  toLex (-(presence op.key : ℤ), toLex (completeness op.hasParams op.hasColumns,
    toLex ((typeTiers.lookup op.typeDesc).getD 3, toLex (op.schemaName, op.name))))

/-- The schema of a type that is known by its full text. -/
def displayedSchema (dataType sqlTypeDisplay : String) : JsonMap :=
  let (oapiType, format) := (sqlToOpenapi.lookup (lower dataType)).getD ("string", none)
  let schema : JsonMap := Map.empty.insert "type" (.str oapiType)
  let schema := match format with
    | some format => schema.insert "format" (.str format)
    | none => schema
  let schema :=
    if oapiType = "array" then schema.insert "items" (.obj [("type", .str "object")]) else schema
  schema.insert "x-sql-type" (.str sqlTypeDisplay)

def objectSchema (properties : JsonMap) : Json :=
  .obj [("type", .str "object"), ("properties", .obj properties.entries)]

def outputParams (params : List ParamRow) : List ParamRow :=
  rank ParamRow.ordinal (params.filter ParamRow.isOutput)

def buildOutputParamSchema (params : List ParamRow) : Option Json :=
  let rows := outputParams params
  if rows = [] then none
  else some (objectSchema (rows.foldl (fun properties p => properties.insert p.name
    (.obj (sqlTypeToSchema p.dataType p.maxLength p.precision p.scale).entries)) Map.empty))

/-- The ordinal of a described column; a missing one counts as zero. -/
def ordinalOf (row : ResultsetRow) : ℕ := row.columnOrdinal.getD 0

/-- The described columns by ordinal; rows without a name are left out. -/
def describedColumns (rows : List ResultsetRow) : List ResultsetRow :=
  (sortOn ordinalOf rows).filter ResultsetRow.named

def describedColumn (row : ResultsetRow) : Json :=
  let systemTypeName := row.systemTypeName.getD ""
  let baseType := String.ofList (systemTypeName.toList.takeWhile (· ≠ '('))
  .obj (displayedSchema baseType systemTypeName).entries

def describedProperties (rows : List ResultsetRow) : JsonMap :=
  (describedColumns rows).foldl
    (fun properties row => properties.insert (row.columnName.getD "") (describedColumn row))
    Map.empty

def nameOnlyColumn : Json :=
  .obj [("type", .str "string"),
    ("x-sql-type", .str "unknown (name-only, see x-sql-columns-source)")]

def buildResponseSchema : ResultSet → Json
  | .described rows =>
    .obj [("type", .str "array"), ("items", objectSchema (describedProperties rows))]
  | .fmtonly columns =>
    .obj [("type", .str "array"),
      ("items", objectSchema (columns.foldl
        (fun properties name => properties.insert name nameOnlyColumn) Map.empty)),
      ("x-sql-columns-source", .str "fmtonly"),
      ("description", .str
        ("Column names recovered via SET FMTONLY ON (sys.dm_exec_describe_first_result_set " ++
          "could not describe this object's result set). Names only -- FMTONLY's column " ++
          "metadata is a wire-protocol response to the connecting client, not something a " ++
          "T-SQL session can query back typed information from; see resultset_fmtonly.sql."))]
  | .noResultSet =>
    .obj [("type", .str "object"),
      ("description", .str "This object does not return a result set.")]
  | .unknown error =>
    let desc := "Result set shape could not be determined by introspection"
    let desc := if error.getD "" = "" then desc else desc ++ ": " ++ error.getD ""
    .obj [("type", .str "object"), ("description", .str desc)]

/-- The operation object under a path. -/
structure PostOperation where
  operationId : String
  summary : String
  tags : List String
  description : String
  xSqlDatabases : List String
  xSqlSchema : String
  responses : Fields
  requestBody : Json

def outputParamsHeader (schemaKey : String) : Json :=
  .obj [("X-Output-Parameters-Schema", .obj
    [("description", .str ("Shape of this object's OUTPUT parameters (returned out-of-band " ++
        "by real callers).")),
      ("schema", refTo schemaKey)])]

def okResponse (responseSchema : Json) (outputParamsKey : Option String) : Json :=
  let response : Fields :=
    [("description", .str "Result set (if any) returned by the object."),
      ("content", jsonContent responseSchema)]
  .obj (match outputParamsKey with
    | none => response
    | some schemaKey => response ++ [("headers", outputParamsHeader schemaKey)])

/-! The path, the id and the schema keys of an operation. -/

def pathOf (op : Operation) : String := "/" ++ op.schemaName ++ "/" ++ op.name

def operationId (op : Operation) : String := op.schemaName ++ "_" ++ op.name

def requestKey (op : Operation) : String := operationId op ++ "_Request"

def outputParamsKey (op : Operation) : String := operationId op ++ "_OutputParams"

/-- The schemas of an operation under their keys. -/
def componentsOf (op : Operation) : Fields :=
  (requestKey op, buildRequestSchema op.params op.databases) ::
    match buildOutputParamSchema op.params with
    | none => []
    | some schema => [(outputParamsKey op, schema)]

def postOperation (op : Operation) : PostOperation where
  operationId := operationId op
  summary := objectSummary op.name op.typeDesc
  tags := [op.typeDesc]
  description := op.typeDesc
  xSqlDatabases := op.databases
  xSqlSchema := op.schemaName
  responses :=
    ("200", okResponse (buildResponseSchema op.resultset)
      ((buildOutputParamSchema op.params).map fun _ => outputParamsKey op)) :: buildErrorResponses
  requestBody := .obj [("content", jsonContent (refTo (requestKey op)))]

/-- What the loop over the kept operations has written. -/
structure Written where
  paths : Map String PostOperation
  schemas : JsonMap
  pathCollisions : ℕ

/-- An operation whose path is taken is counted and left out. -/
def emit (written : Written) (op : Operation) : Written :=
  if pathOf op ∈ keys written.paths.entries then
    { written with pathCollisions := written.pathCollisions + 1 }
  else
    { written with
      paths := written.paths.insert (pathOf op) (postOperation op)
      schemas := (componentsOf op).foldl (fun schemas e => schemas.insert e.1 e.2)
        written.schemas }

def initial : Written where
  paths := Map.empty
  schemas := Map.empty.insert sqlErrorSchemaName sqlErrorSchema
  pathCollisions := 0

def emitAll (kept : List Operation) : Written := kept.foldl emit initial

structure Doc where
  openapi : String
  info : Fields
  paths : Map String PostOperation
  schemas : JsonMap
  securitySchemes : Fields
  security : List Json

/-- The counts that the generator prints. -/
structure Report where
  totalRanked : ℕ
  droppedByRank : ℕ
  extendedDropped : ℕ
  pathCollisions : ℕ
  versionsScanned : ℕ

def infoOf (version : String) : Fields :=
  [("title", .str ("SQL Server " ++ version ++ " - master/msdb/model combined catalog")),
    ("version", .str version),
    ("description", .str
      ("Synthetic OpenAPI representation of system-shipped (is_ms_shipped = 1) stored " ++
        "procedures, functions, and views found across the 'master', 'msdb', and 'model' " ++
        "databases on SQL Server " ++ version ++ ", generated by introspecting a live " ++
        "instance and deduplicating objects that appear identically in more than one of " ++
        "those databases (see each operation's `x-sql-databases`). Ranked primarily by how " ++
        "many extracted SQL Server versions (2017/2019/2022/2025) an operation exists on -- " ++
        "so the top-" ++ toString topNPerVersion ++ " cut lands on roughly the same " ++
        "operation set across versions -- then by metadata completeness; see " ++
        "tools/generate_openapi.py's rank_key()/compute_presence(). Each path is a synthetic " ++
        "POST operation (SQL objects are not HTTP resources) -- see README for the mapping " ++
        "convention and known limitations. Every operation carries an optional `" ++
        executionDatabaseParam ++ "` request property documenting which database to run it " ++
        "against; `security` lists the TDS-protocol authentication modes this engine version " ++
        "accepts (mapped to the closest-fitting OpenAPI securityScheme shape, not a real " ++
        "HTTP auth flow)."))]

def rankedOperations (version : String) (data : DataRoot) : List Operation :=
  sortOn (rankKey (presenceCount data version)) (buildOperations (dumpsOf data version)).1

def keptOperations (version : String) (data : DataRoot) : List Operation :=
  (rankedOperations version data).take topNPerVersion

def documentOf (version : String) (kept : List Operation) : Doc where
  openapi := "3.1.0"
  info := infoOf version
  paths := (emitAll kept).paths
  schemas := (emitAll kept).schemas
  securitySchemes := (buildSecurity version).1
  security := (buildSecurity version).2

def main (version : String) (data : DataRoot) : Doc × Report :=
  let ranked := rankedOperations version data
  let kept := keptOperations version data
  (documentOf version kept,
    { totalRanked := ranked.length
      droppedByRank := ranked.length - kept.length
      extendedDropped := (buildOperations (dumpsOf data version)).2
      pathCollisions := (emitAll kept).pathCollisions
      versionsScanned := (discoverVersions data).length })

/-- The operations that get a path: the first of each path. -/
def emitted (kept : List Operation) : List Operation := firsts pathOf kept

def addAll (schemas : JsonMap) (fields : Fields) : JsonMap :=
  fields.foldl (fun acc e => acc.insert e.1 e.2) schemas

/-- The paths and the schemas are those of the operations that get a path. -/
theorem emitAll_eq (kept : List Operation) :
    (emitAll kept).paths.entries = (emitted kept).map (fun op => (pathOf op, postOperation op)) ∧
      (emitAll kept).schemas = addAll initial.schemas ((emitted kept).flatMap componentsOf) := by
  induction kept using List.reverseRecOn with
  | nil => exact ⟨rfl, rfl⟩
  | append_singleton kept op ih =>
    have hstep : emitAll (kept ++ [op]) = emit (emitAll kept) op := by
      unfold emitAll
      rw [List.foldl_append, List.foldl_cons, List.foldl_nil]
    have hkeys : keys (emitAll kept).paths.entries = (emitted kept).map pathOf := by
      rw [ih.1]
      simp [keys]
    have hmem : pathOf op ∈ keys (emitAll kept).paths.entries ↔ pathOf op ∈ kept.map pathOf := by
      rw [hkeys]
      exact mem_map_firsts pathOf kept (pathOf op)
    have hfirsts := firsts_concat pathOf kept op
    rw [hstep]
    unfold emit
    by_cases htaken : pathOf op ∈ kept.map pathOf
    · have hsame : emitted (kept ++ [op]) = emitted kept := hfirsts.trans (if_pos htaken)
      rw [if_pos (hmem.mpr htaken), hsame]
      exact ih
    · have hnew : emitted (kept ++ [op]) = emitted kept ++ [op] := hfirsts.trans (if_neg htaken)
      have hfree : (emitAll kept).paths.get (pathOf op) = none :=
        (lookup_eq_none_iff _ _).mpr fun h => htaken (hmem.mp h)
      rw [if_neg fun h => htaken (hmem.mp h), hnew]
      constructor
      · simp only []
        rw [Map.entries_insert_of_get_eq_none _ _ _ hfree, ih.1, List.map_append]
        rfl
      · simp only []
        rw [ih.2, List.flatMap_append]
        unfold addAll
        rw [List.foldl_append, List.flatMap_singleton]

/-- A part of the name, cut at an underscore, belongs to the other schema. -/
def Clash (a b : Operation) : Prop :=
  ∃ t, b.schemaName = a.schemaName ++ "_" ++ t ∧ a.name = t ++ "_" ++ b.name

theorem operationId_eq_iff (a b : Operation) :
    operationId a = operationId b ↔ a.object = b.object ∨ Clash a b ∨ Clash b a := by
  unfold operationId Clash Operation.object
  rw [append_sep_string_eq_iff rfl, Prod.mk.injEq]

theorem object_ne_of_clash {a b : Operation} (h : Clash a b) : a.object ≠ b.object := by
  obtain ⟨t, hschema, -⟩ := h
  intro heq
  have hlength := congrArg String.length ((Prod.mk.inj heq).1.trans hschema)
  simp only [String.length_append] at hlength
  have hsep : "_".length = 1 := rfl
  omega

theorem mem_keys_componentsOf {op : Operation} {k : String} (h : k ∈ keys (componentsOf op)) :
    k = requestKey op ∨ k = outputParamsKey op := by
  unfold componentsOf at h
  rcases List.mem_cons.mp h with rfl | hrest
  · exact Or.inl rfl
  · cases hout : buildOutputParamSchema op.params with
    | none =>
      rw [hout] at hrest
      contradiction
    | some schema =>
      rw [hout] at hrest
      exact Or.inr (List.mem_singleton.mp hrest)

theorem requestKey_ne_outputParamsKey (a b : Operation) : requestKey a ≠ outputParamsKey b :=
  append_ne_append rfl rfl (by decide)

/-- No schema of an operation takes the place of the error schema. -/
theorem sqlErrorSchemaName_notMem (op : Operation) :
    sqlErrorSchemaName ∉ keys (componentsOf op) := by
  intro h
  have hself : sqlErrorSchemaName = "" ++ sqlErrorSchemaName := by rw [String.empty_append]
  rcases mem_keys_componentsOf h with heq | heq
  · rw [hself] at heq
    exact append_ne_append rfl rfl (by decide) heq
  · rw [hself] at heq
    exact append_ne_append rfl rfl (by decide) heq

/-- The schema keys tell the operation ids apart. -/
theorem operationId_eq_of_mem_keys {a b : Operation} {k : String}
    (ha : k ∈ keys (componentsOf a)) (hb : k ∈ keys (componentsOf b)) :
    operationId a = operationId b := by
  rcases mem_keys_componentsOf ha with rfl | rfl
  · rcases mem_keys_componentsOf hb with heq | heq
    · exact String.append_left_inj _ |>.mp heq
    · exact absurd heq (requestKey_ne_outputParamsKey a b)
  · rcases mem_keys_componentsOf hb with heq | heq
    · exact absurd heq.symm (requestKey_ne_outputParamsKey b a)
    · exact String.append_left_inj _ |>.mp heq

theorem componentsOf_distinct (op : Operation) : DistinctKeys (componentsOf op) := by
  unfold componentsOf
  cases buildOutputParamSchema op.params with
  | none => exact List.nodup_singleton _
  | some schema =>
    refine List.nodup_cons.mpr ⟨?_, List.nodup_singleton _⟩
    intro h
    exact requestKey_ne_outputParamsKey op op (List.mem_singleton.mp h)

/-- No part of a name can be taken for a part of another operation's schema. -/
def NoClash (kept : List Operation) : Prop :=
  ∀ a ∈ emitted kept, ∀ b ∈ emitted kept, ¬ Clash a b

theorem operationId_ne_of_noClash {kept : List Operation} (h : NoClash kept) {a b : Operation}
    (ha : a ∈ emitted kept) (hb : b ∈ emitted kept) (hne : a.object ≠ b.object) :
    operationId a ≠ operationId b := by
  intro heq
  rcases (operationId_eq_iff a b).mp heq with hobject | hclash | hclash
  · exact hne hobject
  · exact h a ha b hb hclash
  · exact h b hb a ha hclash

theorem pathOf_eq_of_object_eq {a b : Operation} (h : a.object = b.object) :
    pathOf a = pathOf b := by
  obtain ⟨hschema, hname⟩ := Prod.mk.inj h
  unfold pathOf
  rw [hschema, hname]

theorem emitted_pairwise (kept : List Operation) :
    (emitted kept).Pairwise fun a b => pathOf a ≠ pathOf b := by
  have hkeys : keys (emitAll kept).paths.entries = (emitted kept).map pathOf := by
    rw [(emitAll_eq kept).1]
    unfold keys
    rw [List.map_map]
    rfl
  have hnodup : ((emitted kept).map pathOf).Nodup := hkeys ▸ (emitAll kept).paths.distinct
  exact List.pairwise_map.mp hnodup

theorem operationIds_pairwise {kept : List Operation} (h : NoClash kept) :
    (emitted kept).Pairwise fun a b => operationId a ≠ operationId b := by
  refine (emitted_pairwise kept).imp_of_mem ?_
  intro a b ha hb hpath
  apply operationId_ne_of_noClash h ha hb
  intro hobject
  exact hpath (pathOf_eq_of_object_eq hobject)

theorem components_distinct {kept : List Operation} (h : NoClash kept) :
    DistinctKeys (initial.schemas.entries ++ (emitted kept).flatMap componentsOf) := by
  have hflat : keys ((emitted kept).flatMap componentsOf) =
      (emitted kept).flatMap fun op => keys (componentsOf op) := List.map_flatMap
  have hcomponents : (keys ((emitted kept).flatMap componentsOf)).Nodup := by
    rw [hflat]
    refine List.nodup_flatMap.mpr ⟨fun op _ => componentsOf_distinct op, ?_⟩
    refine (operationIds_pairwise h).imp ?_
    intro a b hne k ha hb
    exact hne (operationId_eq_of_mem_keys ha hb)
  unfold DistinctKeys
  have happend : keys (initial.schemas.entries ++ (emitted kept).flatMap componentsOf) =
      sqlErrorSchemaName :: keys ((emitted kept).flatMap componentsOf) := rfl
  rw [happend]
  refine List.nodup_cons.mpr ⟨?_, hcomponents⟩
  intro hmem
  rw [hflat] at hmem
  obtain ⟨op, _, hop⟩ := List.mem_flatMap.mp hmem
  exact sqlErrorSchemaName_notMem op hop

/-- Without a clash every operation finds its own schemas in the document. -/
theorem schemas_get {kept : List Operation} (h : NoClash kept) {op : Operation}
    (hop : op ∈ emitted kept) {e : String × Json} (he : e ∈ componentsOf op) :
    (emitAll kept).schemas.get e.1 = some e.2 := by
  have hdistinct := components_distinct h
  have hentries : (emitAll kept).schemas.entries =
      initial.schemas.entries ++ (emitted kept).flatMap componentsOf := by
    rw [(emitAll_eq kept).2]
    unfold addAll
    rw [Map.entries_foldl_insert, extend_eq_append hdistinct]
  unfold Map.get
  rw [hentries]
  apply (lookup_eq_some_iff_mem hdistinct e.1 e.2).mpr
  exact List.mem_append_right _ (List.mem_flatMap.mpr ⟨op, hop, he⟩)

theorem paths_get {kept : List Operation} {op : Operation} (hop : op ∈ emitted kept) :
    (emitAll kept).paths.get (pathOf op) = some (postOperation op) := by
  apply (lookup_eq_some_iff_mem (emitAll kept).paths.distinct _ _).mpr
  rw [(emitAll_eq kept).1]
  exact List.mem_map.mpr ⟨op, hop, rfl⟩

/-- The schema of a body of JSON content. -/
def contentSchema (body : Json) : Option Json :=
  (body.get "content").bind fun content =>
    (content.get "application/json").bind fun media => media.get "schema"

def contentRef (body : Json) : Option String :=
  (contentSchema body).bind fun schema => (schema.get "$ref").bind Json.asStr

/-- The schema that a reference of a document points at. -/
def Doc.resolve (doc : Doc) (ref : String) : Option Json :=
  (stripPrefix "#/components/schemas/" ref).bind doc.schemas.get

theorem contentRef_requestBody (op : Operation) :
    contentRef (postOperation op).requestBody = some (schemaRef (requestKey op)) := rfl

theorem resolve_schemaRef (doc : Doc) (schemaKey : String) :
    doc.resolve (schemaRef schemaKey) = doc.schemas.get schemaKey := by
  unfold Doc.resolve schemaRef
  rw [stripPrefix_append, Option.bind_some]

theorem get_addAll_of_notMem {fields : Fields} {k : String} (h : k ∉ keys fields)
    (schemas : JsonMap) : (addAll schemas fields).get k = schemas.get k := by
  induction fields generalizing schemas with
  | nil => rfl
  | cons e rest ih =>
    obtain ⟨hk, hrest⟩ := not_or.mp fun hor => h (List.mem_cons.mpr hor)
    have hstep : addAll schemas (e :: rest) = addAll (schemas.insert e.1 e.2) rest := rfl
    rw [hstep, ih hrest, Map.get_insert_of_ne _ _ hk]

/-- The error responses point at the error schema, whatever is kept. -/
theorem errorResponses_resolve (version : String) (kept : List Operation) :
    ∀ e ∈ buildErrorResponses,
      (contentRef e.2).bind (documentOf version kept).resolve = some sqlErrorSchema := by
  have hschema : (emitAll kept).schemas.get sqlErrorSchemaName = some sqlErrorSchema := by
    rw [(emitAll_eq kept).2, get_addAll_of_notMem]
    · exact Map.get_insert_self _ _ _
    · intro h
      obtain ⟨e, he, hname⟩ := List.mem_map.mp h
      obtain ⟨op, _, hop⟩ := List.mem_flatMap.mp he
      exact sqlErrorSchemaName_notMem op (hname ▸ List.mem_map_of_mem hop)
  intro e he
  have href : contentRef e.2 = some (schemaRef sqlErrorSchemaName) := by
    simp only [buildErrorResponses, List.mem_cons, List.not_mem_nil, or_false] at he
    rcases he with rfl | rfl | rfl
    · rfl
    · rfl
    · rfl
  rw [href, Option.bind_some, resolve_schemaRef]
  exact hschema

/-- In the document of the kept operations different objects have different
operation ids and schema keys, no two rows share an id, and the references of an
operation point at the schemas of its own parameters. -/
structure KeepsApart (version : String) (kept : List Operation) : Prop where
  operation_ids : ∀ a ∈ emitted kept, ∀ b ∈ emitted kept, a.object ≠ b.object →
    operationId a ≠ operationId b
  schema_keys : ∀ a ∈ emitted kept, ∀ b ∈ emitted kept, a.object ≠ b.object →
    ∀ k ∈ keys (componentsOf a), k ∉ keys (componentsOf b)
  rows : ((documentOf version kept).paths.entries.map fun e => e.2.operationId).Nodup
  request_schemas : ∀ op ∈ emitted kept,
    (documentOf version kept).paths.get (pathOf op) = some (postOperation op) ∧
      (contentRef (postOperation op).requestBody).bind (documentOf version kept).resolve =
        some (buildRequestSchema op.params op.databases)
  output_schemas : ∀ op ∈ emitted kept, ∀ schema,
    buildOutputParamSchema op.params = some schema →
      (documentOf version kept).resolve (schemaRef (outputParamsKey op)) = some schema

/-- The operations of a document are kept apart exactly when none of them has a
name of which a part, cut at an underscore, ends the schema of another one. -/
theorem keepsApart_iff (version : String) (kept : List Operation) :
    KeepsApart version kept ↔ NoClash kept := by
  constructor
  · intro h a ha b hb hclash
    apply h.operation_ids a ha b hb (object_ne_of_clash hclash)
    exact (operationId_eq_iff a b).mpr (Or.inr (Or.inl hclash))
  · intro h
    refine ⟨?_, ?_, ?_, ?_, ?_⟩
    · intro a ha b hb hne
      exact operationId_ne_of_noClash h ha hb hne
    · intro a ha b hb hne k hka hkb
      exact operationId_ne_of_noClash h ha hb hne (operationId_eq_of_mem_keys hka hkb)
    · show (((emitAll kept).paths.entries).map fun e => e.2.operationId).Nodup
      rw [(emitAll_eq kept).1, List.map_map]
      exact List.pairwise_map.mpr (operationIds_pairwise h)
    · intro op hop
      refine ⟨paths_get hop, ?_⟩
      rw [contentRef_requestBody, Option.bind_some, resolve_schemaRef]
      exact schemas_get h hop (e := (requestKey op, _)) List.mem_cons_self
    · intro op hop schema hout
      rw [resolve_schemaRef]
      have hmem : (outputParamsKey op, schema) ∈ componentsOf op := by
        unfold componentsOf
        rw [hout]
        exact List.mem_cons_of_mem _ List.mem_cons_self
      exact schemas_get h hop hmem

/-- Two objects whose schemas and names join to one text. -/
def joinedDump : Dump where
  objects := [⟨"a_b", "c", "SQL_STORED_PROCEDURE"⟩, ⟨"a", "b_c", "VIEW"⟩]
  params := []
  resultsets := []
  fmtonly := []

def joinedData : DataRoot :=
  Map.empty.insert "2022" fun db => if db = .master then joinedDump else emptyDump

theorem not_keepsApart_joined : ¬ KeepsApart "2022" (keptOperations "2022" joinedData) := by
  intro h
  have hobjects : (emitted (keptOperations "2022" joinedData)).map Operation.object =
      [("a_b", "c"), ("a", "b_c")] := by
    decide
  have hmem : ∀ object ∈ [("a_b", "c"), ("a", "b_c")],
      ∃ op ∈ emitted (keptOperations "2022" joinedData), op.object = object := by
    intro object hobject
    exact List.mem_map.mp (hobjects ▸ hobject)
  obtain ⟨a, ha, haobject⟩ := hmem ("a_b", "c") List.mem_cons_self
  obtain ⟨b, hb, hbobject⟩ := hmem ("a", "b_c") (List.mem_cons_of_mem _ List.mem_cons_self)
  have hne : a.object ≠ b.object := by
    rw [haobject, hbobject]
    decide
  obtain ⟨haschema, haname⟩ := Prod.mk.inj haobject
  obtain ⟨hbschema, hbname⟩ := Prod.mk.inj hbobject
  apply h.operation_ids a ha b hb hne
  unfold operationId
  rw [haschema, haname, hbschema, hbname]
  rfl

end SqlServerMcp.Document
