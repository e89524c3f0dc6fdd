import SqlServerMcp.DataStore
import SqlServerMcp.Document
import SqlServerMcp.FunctionCalls
import SqlServerMcp.StatementForms

/-!
From the generator's document to the statements of calls. An operation of the
document is looked up by its id and called through its path; the statement names
the object that the operation was made from and binds that object's parameters,
or there is no statement at all. The stores hold the kinds of the objects with
blanks, and only a view is still known for what it is.
-/
namespace SqlServerMcp.CatalogCalls

open ApiClient ConfigSchema FunctionCalls Generator JsonValue Operations Ranking Results SqlType
  SqlValue
open Statement hiding executionDatabaseParam requestProperties
open Document hiding main initial
open DataStore hiding EndpointRecord
open Text

/-! What the catalog of a server guarantees of an object. -/

structure Catalogued (op : Operation) : Prop where
  schema_nonempty : op.schemaName ≠ ""
  schema_plain : op.schemaName.toList.head? ≠ some '/'
  ordinals : ((inputParams op.params).map ParamRow.ordinal).Nodup
  names : ((inputParams op.params).map ParamRow.name).Nodup
  reserved : ∀ p ∈ inputParams op.params, p.name ≠ executionDatabaseParam

section Paths

theorem dropWhile_pathOf {op : Operation} (h : Catalogued op) :
    (pathOf op).toList.dropWhile (· = '/') = op.schemaName.toList ++ '/' :: op.name.toList := by
  have hpath : (pathOf op).toList = '/' :: (op.schemaName.toList ++ '/' :: op.name.toList) := by
    simp [pathOf]
  rw [hpath, List.dropWhile_cons_of_pos (by simp)]
  cases hschema : op.schemaName.toList with
  | nil => exact absurd (String.toList_eq_nil_iff.mp hschema) h.schema_nonempty
  | cons c rest =>
    have hc : c ≠ '/' := by
      have hplain := h.schema_plain
      rw [hschema] at hplain
      exact fun heq => hplain (congrArg some heq)
    rw [List.cons_append, List.dropWhile_cons_of_neg (by simpa using hc)]

theorem Ident.notMem_slash {s : String} (h : Ident s) : '/' ∉ s.toList := h.notMem (by decide)

theorem Ident.toList_ne_nil {s : String} (h : Ident s) : s.toList ≠ [] :=
  fun hnil => h.1 (String.toList_eq_nil_iff.mp hnil)

/-- The path of an operation is read back as its schema and name, or not at all. -/
theorem parsePath_pathOf_iff {op : Operation} (h : Catalogued op) (schema name : String) :
    parsePath (pathOf op) = .ok (schema, name) ↔
      Ident op.schemaName ∧ Ident op.name ∧ schema = op.schemaName ∧ name = op.name := by
  constructor
  · intro hparse
    obtain ⟨hschema, hname⟩ := parsePath_ident hparse
    unfold parsePath at hparse
    rw [dropWhile_pathOf h] at hparse
    split at hparse
    · rename_i schema' name' hsplit
      split at hparse
      · obtain ⟨schema₁, hvalid, hrest⟩ := (bind_eq_ok _ _ _).mp hparse
        obtain ⟨name₁, hvalid', hok⟩ := (bind_eq_ok _ _ _).mp hrest
        obtain ⟨rfl, rfl⟩ := Prod.mk.inj (Except.ok.inj hok)
        obtain ⟨-, rfl⟩ := (validateIdent_eq_ok_iff _ _).mp hvalid
        obtain ⟨-, rfl⟩ := (validateIdent_eq_ok_iff _ _).mp hvalid'
        have hschema' := Ident.notMem_slash hschema
        have hname' := Ident.notMem_slash hname
        rw [String.toList_ofList] at hschema' hname'
        -- The only slash of the text is the one that it is split at.
        have hcount := congrArg (List.count '/') (splitOnce_eq_some hsplit)
        rw [List.count_append, List.count_append, List.count_cons_self, List.count_cons_self,
          List.count_eq_zero.mpr hschema', List.count_eq_zero.mpr hname'] at hcount
        have hzero : op.schemaName.toList.count '/' = 0 := by omega
        obtain ⟨rfl, rfl⟩ := append_sep_injective (List.count_eq_zero.mp hzero) hschema'
          (splitOnce_eq_some hsplit)
        rw [String.ofList_toList] at hschema hname ⊢
        rw [String.ofList_toList]
        exact ⟨hschema, hname, rfl, rfl⟩
      · contradiction
    · contradiction
  · rintro ⟨hschema, hname, rfl, rfl⟩
    unfold parsePath
    rw [dropWhile_pathOf h, splitOnce_append _ _ _ (Ident.notMem_slash hschema)]
    dsimp only
    rw [if_pos ⟨Ident.toList_ne_nil hschema, Ident.toList_ne_nil hname⟩, String.ofList_toList,
      String.ofList_toList, (validateIdent_eq_ok_iff _ _).mpr ⟨hschema, rfl⟩, ok_bind,
      (validateIdent_eq_ok_iff _ _).mpr ⟨hname, rfl⟩, ok_bind]

end Paths

section Kinds

/-- A description as the stores have it, with blanks for the underscores. -/
def storedDescription (description : String) : String :=
  String.ofList (description.toList.map fun c => if c = '_' then ' ' else c)

theorem underscore_notMem_storedDescription (description : String) :
    '_' ∉ (storedDescription description).toList := by
  rw [storedDescription, String.toList_ofList, List.mem_map]
  rintro ⟨c, -, hc⟩
  split at hc
  · contradiction
  · contradiction

/-- A text without blanks is stored only as itself. -/
theorem storedDescription_eq_iff {stored : String} (hblank : ' ' ∉ stored.toList)
    (hunderscore : '_' ∉ stored.toList) (description : String) :
    storedDescription description = stored ↔ description = stored := by
  constructor
  · rintro rfl
    apply String.toList_injective
    rw [storedDescription, String.toList_ofList] at hblank ⊢
    refine ((List.map_congr_left ?_).trans (List.map_id _)).symm
    intro c hc
    rw [id, if_neg]
    rintro rfl
    exact hblank (List.mem_map_of_mem (f := fun c => if c = '_' then ' ' else c) hc)
  · rintro rfl
    apply String.toList_injective
    rw [storedDescription, String.toList_ofList]
    refine (List.map_congr_left ?_).trans (List.map_id _)
    intro c hc
    rw [id, if_neg]
    rintro rfl
    exact hunderscore hc

/-- No stored description but that of a view is recognised. -/
theorem callForm_storedDescription (typeDesc : String) :
    callForm (some (storedDescription typeDesc)) =
      if typeDesc = "VIEW" then .view else .procedure := by
  have hview := @storedDescription_eq_iff "VIEW" (by decide) (by decide) typeDesc
  have hunderscore := underscore_notMem_storedDescription typeDesc
  by_cases htype : typeDesc = "VIEW"
  · rw [if_pos htype, hview.mpr htype]
    rfl
  · have hscalar : endsWith (storedDescription typeDesc) "_FUNCTION" = false :=
      decide_eq_false fun hsuffix => hunderscore (hsuffix.subset (by decide))
    have htable : contains (storedDescription typeDesc) "TABLE_VALUED_FUNCTION" = false :=
      decide_eq_false fun hinfix => hunderscore (List.IsInfix.subset hinfix (by decide))
    rw [callForm_of_ne_view _ (mt hview.mp htype), hscalar, htable, if_neg htype]
    rfl

end Kinds

section Params

/-- The client's parameters are the input parameters of the catalog, by ordinal. -/
theorem orderedParams_eq {op : Operation} (h : Catalogued op) {inputSchema : Json}
    (hcarries : Carries inputSchema (buildRequestSchema op.params op.databases)) :
    orderedParams inputSchema = (inputParams op.params).map rowParam := by
  obtain ⟨fields, hfields, hreordered⟩ := hcarries.requestProperties_eq
    (buildRequestSchema_get_properties op.params op.databases)
    (buildRequestSchema_get_ref op.params op.databases)
  have hdeclared := declaredParams_perm hreordered
  rw [declaredParams_requestProperties op.databases h.names h.reserved] at hdeclared
  have hdistinct : (((inputParams op.params).map rowParam).map Param.ordinal).Nodup := by
    rw [List.map_map]
    exact h.ordinals
  have hranked : rank ParamRow.ordinal (inputParams op.params) = inputParams op.params :=
    rank_eq_of_perm ParamRow.ordinal (rank_perm _ _) h.ordinals
  calc
    orderedParams inputSchema = rank Param.ordinal (declaredParams fields) := by
      simp only [orderedParams, hfields, Option.getD_some, declaredParams]
    _ = rank Param.ordinal ((inputParams op.params).map rowParam) :=
      (rank_eq_of_perm Param.ordinal hdeclared hdistinct).symm
    _ = (rank ParamRow.ordinal (inputParams op.params)).map rowParam :=
      (map_rank ParamRow.ordinal rowParam Param.ordinal (fun _ => rfl) _).symm
    _ = (inputParams op.params).map rowParam := by rw [hranked]

/-- The arguments of a call, one for each input parameter of the object. -/
def bindRows (lib : Libraries) (op : Operation) (body : Fields) :
    Except Fault (List BoundParam) :=
  (inputParams op.params).mapM fun p =>
    jsonToParam lib ((body.lookup p.name).getD .null) p.sqlType

theorem bindParams_rowParam (lib : Libraries) (op : Operation) (body : Fields) :
    bindParams lib ((inputParams op.params).map rowParam) body = bindRows lib op body := by
  simp only [bindParams, bindRows, List.mapM_map, Function.comp_def, argument, rowParam]

/-- The statement of a call: views are queried and everything else is executed. -/
def CallText (op : Operation) (executionDatabase : Option String) (sql : String) : Prop :=
  let qualified := qualifiedName op.schemaName op.name executionDatabase
  let names := (inputParams op.params).map ParamRow.name
  if op.typeDesc = "VIEW" then sql = "SELECT * FROM " ++ qualified
  else (∀ name ∈ names, Ident name) ∧ sql = execText qualified names

theorem statementText_rowParam (op : Operation) (executionDatabase : Option String)
    (sql : String) :
    statementText (some (storedDescription op.typeDesc))
        (qualifiedName op.schemaName op.name executionDatabase)
        ((inputParams op.params).map rowParam) ((inputParams op.params).map rowParam).length =
          .ok sql ↔ CallText op executionDatabase sql := by
  have hnames : ((inputParams op.params).map rowParam).map Param.name =
      (inputParams op.params).map ParamRow.name := by
    rw [List.map_map]
    rfl
  rw [statementText_eq_ok_iff, CallText, callForm_storedDescription]
  by_cases hview : op.typeDesc = "VIEW"
  · rw [if_pos hview, if_pos hview]
  · rw [if_neg hview, if_neg hview, hnames]
    simp only [List.forall_mem_map]
    exact Iff.rfl

end Params

section Calls

variable (lib : Libraries) (fromStr : String → Option Json)
  (resolvedSchemasFor : String → String → Option (Json × Json))

/-- What the store and the embedded schemas of a version have of a document. The
importer is no part of the repository; its stores hold each description with
blanks. -/
structure Imported (doc : Doc) (version : String) (tables : Tables) : Prop where
  rows : ∀ path post, doc.paths.get path = some post → ∃ row ∈ tables.endpoints,
    row.operationId = post.operationId ∧ row.path = path ∧
      row.description = some (storedDescription post.description)
  schemas : ∀ path post schema, doc.paths.get path = some post →
    (contentRef post.requestBody).bind doc.resolve = some schema →
      ∃ inputSchema outputSchema,
        resolvedSchemasFor version post.operationId = some (inputSchema, outputSchema) ∧
          Carries inputSchema schema

variable {resolvedSchemasFor} {version : String} {kept : List Operation} {tables : Tables}

theorem Imported.row (h : Imported resolvedSchemasFor (documentOf version kept) version tables)
    {op : Operation} (hop : op ∈ emitted kept) : ∃ row ∈ tables.endpoints,
      row.operationId = operationId op ∧ row.path = pathOf op ∧
        row.description = some (storedDescription op.typeDesc) :=
  h.rows (pathOf op) (postOperation op) (paths_get hop)

/-- The ids of a store are distinct, so no two operations share one. -/
theorem Imported.noClash
    (h : Imported resolvedSchemasFor (documentOf version kept) version tables) : NoClash kept := by
  intro a ha b hb hclash
  obtain ⟨row, hrow, hid, hpath, -⟩ := h.row ha
  obtain ⟨row', hrow', hid', hpath', -⟩ := h.row hb
  have hsame : operationId a = operationId b :=
    (operationId_eq_iff a b).mpr (.inr (.inl hclash))
  have heq : row = row' := List.inj_on_of_nodup_map tables.distinct hrow hrow'
    (hid.trans (hsame.trans hid'.symm))
  subst heq
  have hpaths : ((emitted kept).map pathOf).Nodup := List.pairwise_map.mpr (emitted_pairwise kept)
  have hab : a = b := List.inj_on_of_nodup_map hpaths ha hb (hpath.symm.trans hpath')
  exact object_ne_of_clash hclash (by rw [hab])

theorem Imported.schema (h : Imported resolvedSchemasFor (documentOf version kept) version tables)
    {op : Operation} (hop : op ∈ emitted kept) : ∃ inputSchema outputSchema,
      resolvedSchemasFor version (operationId op) = some (inputSchema, outputSchema) ∧
        Carries inputSchema (buildRequestSchema op.params op.databases) := by
  refine h.schemas (pathOf op) (postOperation op) _ (paths_get hop) ?_
  rw [contentRef_requestBody, Option.bind_some, resolve_schemaRef]
  exact schemas_get h.noClash hop (e := (requestKey op, _)) List.mem_cons_self

variable (resolvedSchemasFor)

/-- Every operation of the document is found by its id, and what is found prepares
a statement in just these cases: it is a view or the mode is not read-only, its
schema and name are plain identifiers, the database is settled and every argument
converts. Then the statement queries the view or executes the object that the
operation was made from, with its own input parameters by their ordinals; functions
are executed as procedures are. -/
theorem documented_call (version : String) (kept : List Operation) (tables : Tables)
    (himported : Imported resolvedSchemasFor (documentOf version kept) version tables)
    (op : Operation) (hop : op ∈ emitted kept) (hcatalogued : Catalogued op) :
    ∃ endpoint, getOperation fromStr tables (operationId op) = .ok endpoint ∧
      ∀ (client : Config) (args : Json) (sql : String) (bound : List BoundParam),
        client.apiVersion = version →
          (prepare lib resolvedSchemasFor client endpoint.called args = .ok (sql, bound) ↔
            (client.readOnly = true → op.typeDesc = "VIEW") ∧
            Ident op.schemaName ∧ Ident op.name ∧
            ∃ executionDatabase,
              resolveExecutionDatabase (requestBody args) client = .ok executionDatabase ∧
              bindRows lib op (requestBody args) = .ok bound ∧
              CallText op executionDatabase sql) := by
  obtain ⟨row, hrow, hid, hpath, hdescription⟩ := himported.row hop
  obtain ⟨inputSchema, outputSchema, hresolved, hcarries⟩ := himported.schema hop
  refine ⟨rowToEndpoint fromStr row,
    (getOperation_eq_ok_iff fromStr tables _ _).mpr ⟨row, hrow, hid, rfl⟩, ?_⟩
  intro client args sql bound hversion
  have hcalled : (rowToEndpoint fromStr row).called =
      ⟨operationId op, pathOf op, some (storedDescription op.typeDesc)⟩ := by
    rw [← hid, ← hpath, ← hdescription]
    rfl
  have hschema : inputSchemaOf resolvedSchemasFor client (rowToEndpoint fromStr row).called =
      .ok inputSchema := by
    rw [hcalled, inputSchemaOf, hversion, hresolved]
  have hview : isWritableKind (some (storedDescription op.typeDesc)) = false ↔
      op.typeDesc = "VIEW" := by
    rw [isWritableKind_eq_false_iff, callForm_storedDescription]
    split <;> simp_all
  have hguard : (client.readOnly && isWritableKind (some (storedDescription op.typeDesc))) =
      false ↔ (client.readOnly = true → op.typeDesc = "VIEW") := by
    rw [← hview]
    cases client.readOnly <;> simp
  rw [prepare_eq_ok_iff, hcalled, hguard]
  refine and_congr_right fun _ => ?_
  simp only [parsePath_pathOf_iff hcatalogued, ← hcalled, hschema]
  have hbuild : ∀ executionDatabase, buildStatement lib op.schemaName op.name
      (some (storedDescription op.typeDesc)) (orderedParams inputSchema) (requestBody args)
      executionDatabase = .ok (sql, bound) ↔
        bindRows lib op (requestBody args) = .ok bound ∧ CallText op executionDatabase sql := by
    intro executionDatabase
    rw [buildStatement_eq_ok_iff, orderedParams_eq hcatalogued hcarries, bindParams_rowParam,
      statementText_rowParam]
  constructor
  · rintro ⟨schema, name, inputSchema', executionDatabase,
      ⟨hschema', hname, rfl, rfl⟩, hinput, hdatabase, hstatement⟩
    obtain rfl := Except.ok.inj hinput
    exact ⟨hschema', hname, executionDatabase, hdatabase, (hbuild _).mp hstatement⟩
  · rintro ⟨hschema', hname, executionDatabase, hdatabase, hcall⟩
    exact ⟨_, _, inputSchema, executionDatabase, ⟨hschema', hname, rfl, rfl⟩, rfl, hdatabase,
      (hbuild _).mpr hcall⟩

end Calls

/-- A procedure with one parameter, as the catalog lists it. -/
def whoOperation : Operation where
  schemaName := "sys"
  name := "sp_who"
  typeDesc := "SQL_STORED_PROCEDURE"
  databases := ["master"]
  params := [catalogRow "@loginame" 1 "sysname" firstOrdinal_lt]
  resultset := .noResultSet
  hasParams := true
  hasColumns := false

/-- A function with one parameter. -/
def statsOperation : Operation where
  schemaName := "sys"
  name := "dm_db_stats_properties"
  typeDesc := "SQL_INLINE_TABLE_VALUED_FUNCTION"
  databases := ["master"]
  params := [catalogRow "@object_id" 1 "int" firstOrdinal_lt]
  resultset := .noResultSet
  hasParams := true
  hasColumns := false

def sampleOperations : List Operation := [whoOperation, statsOperation]

def inputOf (op : Operation) : Json :=
  .obj [("properties", .obj [("body", buildRequestSchema op.params op.databases)])]

def spacedTables : Tables where
  endpoints :=
    [⟨⟨"sys_sp_who", "/sys/sp_who", "POST", none, some "SQL STORED PROCEDURE"⟩,
      "null", "null", none⟩,
    ⟨⟨"sys_dm_db_stats_properties", "/sys/dm_db_stats_properties", "POST", none,
      some "SQL INLINE TABLE VALUED FUNCTION"⟩, "null", "null", none⟩]
  semanticEndpoints := AssocMap.Map.empty
  distinct := by decide

def sampleResolved (version operationId : String) : Option (Json × Json) :=
  if version = "2025" ∧ operationId = "sys_sp_who" then some (inputOf whoOperation, .null)
  else if version = "2025" ∧ operationId = "sys_dm_db_stats_properties" then
    some (inputOf statsOperation, .null)
  else none

theorem statsOperation_catalogued : Catalogued statsOperation := by
  refine ⟨?_, ?_, ?_, ?_, ?_⟩ <;> decide

theorem samplePaths {path : String} {post : PostOperation}
    (h : (documentOf "2025" sampleOperations).paths.get path = some post) :
    ∃ op ∈ sampleOperations, path = pathOf op ∧ post = postOperation op := by
  have hmem := (AssocMap.lookup_eq_some_iff_mem (emitAll sampleOperations).paths.distinct _ _).mp h
  rw [(emitAll_eq sampleOperations).1] at hmem
  rcases List.mem_cons.mp hmem with hwho | hrest
  · exact ⟨whoOperation, List.mem_cons_self, Prod.mk.inj hwho⟩
  · exact ⟨statsOperation, by simp [sampleOperations],
      Prod.mk.inj (List.mem_singleton.mp hrest)⟩

theorem spacedTables_imported :
    Imported sampleResolved (documentOf "2025" sampleOperations) "2025" spacedTables where
  rows := by
    intro path post h
    obtain ⟨op, hop, rfl, rfl⟩ := samplePaths h
    rcases List.mem_cons.mp hop with rfl | hrest
    · exact ⟨_, List.mem_cons_self, rfl, rfl, rfl⟩
    · obtain rfl := List.mem_singleton.mp hrest
      exact ⟨_, List.mem_cons_of_mem _ List.mem_cons_self, rfl, rfl, rfl⟩
  schemas := by
    intro path post schema h hschema
    obtain ⟨op, hop, rfl, rfl⟩ := samplePaths h
    rcases List.mem_cons.mp hop with rfl | hrest
    · obtain rfl := Option.some.inj hschema
      exact ⟨inputOf whoOperation, .null, rfl, .inline _ _ rfl rfl (Reordered.refl _)⟩
    · obtain rfl := List.mem_singleton.mp hrest
      obtain rfl := Option.some.inj hschema
      exact ⟨inputOf statsOperation, .null, rfl, .inline _ _ rfl rfl (Reordered.refl _)⟩

/-- The function is executed. -/
theorem documented_call_stats :
    ∃ endpoint, getOperation (fun _ => none) spacedTables "sys_dm_db_stats_properties" =
        .ok endpoint ∧
      prepare numericLibraries sampleResolved StatementForms.writableConfig endpoint.called
          (.obj [("body", .obj [("object_id", .null)])]) =
        .ok ("EXEC [sys].[dm_db_stats_properties] @object_id = @P1", [.i32 none]) := by
  obtain ⟨endpoint, hget, hcall⟩ := documented_call numericLibraries (fun _ => none) sampleResolved
    "2025" sampleOperations spacedTables spacedTables_imported statsOperation
    (List.mem_cons_of_mem _ List.mem_cons_self) statsOperation_catalogued
  refine ⟨endpoint, hget, (hcall _ _ _ _ rfl).mpr ⟨nofun, ?_, ?_, none, rfl, rfl, ?_, rfl⟩⟩
  · exact ⟨by decide, List.all_eq_true.mp rfl⟩
  · exact ⟨by decide, List.all_eq_true.mp rfl⟩
  · intro name hname
    obtain rfl := List.mem_singleton.mp hname
    exact ⟨by decide, List.all_eq_true.mp rfl⟩

end SqlServerMcp.CatalogCalls
