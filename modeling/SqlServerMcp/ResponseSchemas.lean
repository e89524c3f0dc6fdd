import SqlServerMcp.Arguments
import SqlServerMcp.Document
import SqlServerMcp.RowObjects

/-!
What the documented response of an operation says about its rows. A response is
returned whether or not it meets the document; it meets it exactly when each
member of a row's object has the JSON type that the last described column of its
name was given. Rows of exact numbers or with missing values never do, and no
response meets the document of an operation without a result set.
-/
namespace SqlServerMcp.ResponseSchemas

open AssocMap ColumnTypes ConfigSchema FixedWidth JsonSchema JsonValue SqlPool SqlType SqlValue
open ApiClient Arguments CallTool Generator Operations Ranking RowObjects StatementForms Validator
open Document hiding main initial

/-! The JSON types that cells are returned with. -/

inductive JsonType where
  | null | boolean | integer | number | string
  deriving DecidableEq

namespace JsonType

def name : JsonType → String
  | null => "null"
  | boolean => "boolean"
  | integer => "integer"
  | number => "number"
  | string => "string"

/-- Whether a schema of a type takes values of the other one. -/
def meets (t : JsonType) (documented : String) : Bool :=
  documented = t.name || (documented = "number" && t = integer)

end JsonType

/-- A number without a fraction counts as an integer. -/
def floatType (bits : UInt64) : JsonType :=
  if (Float.ofBits bits).isFinite then
    if (Float.ofBits bits).floor == Float.ofBits bits then .integer else .number
  else .null

def jsonType : ColumnData → JsonType
  | .u8 (some _) | .i16 (some _) | .i32 (some _) | .i64 (some _) => .integer
  | .f32 (some bits) => floatType (FloatBits.widen bits)
  | .f64 (some bits) => floatType bits
  | .bit (some _) => .boolean
  | .string (some _) | .guid (some _) | .binary (some _) | .numeric (some _) | .xml (some _)
  | .dateTime (some _) | .smallDateTime (some _) | .time (some _) | .date (some _)
  | .dateTime2 (some _) | .dateTimeOffset (some _) => .string
  | _ => .null

/-- The value is one of a type without parts. -/
inductive OfType : JsonType → Json → Prop
  | null : OfType .null .null
  | boolean (b : Bool) : OfType .boolean (.bool b)
  | integer (i : JsonInt) : OfType .integer (.num (.int i))
  | whole (bits : UInt64) (h : ((Float.ofBits bits).floor == Float.ofBits bits) = true) :
      OfType .integer (.num (.float bits))
  | fraction (bits : UInt64) (h : ((Float.ofBits bits).floor == Float.ofBits bits) = false) :
      OfType .number (.num (.float bits))
  | string (s : String) : OfType .string (.str s)

namespace OfType

variable {t : JsonType} {json : Json}

theorem hasType_eq (h : OfType t json) (documented : String) :
    hasType documented json = t.meets documented := by
  cases h with
  | null | boolean | integer | string =>
    unfold hasType
    split <;> simp_all [JsonType.meets, JsonType.name]
  | whole bits h | fraction bits h =>
    unfold hasType
    split <;> simp_all [JsonType.meets, JsonType.name]

theorem scalar (h : OfType t json) :
    (∀ fields, json ≠ .obj fields) ∧ ∀ elements, json ≠ .arr elements := by
  cases h <;> exact ⟨nofun, nofun⟩

end OfType

section Cells

variable (lib : Libraries)

theorem ofType_f64ToJson (bits : UInt64) : OfType (floatType bits) (f64ToJson bits) := by
  unfold floatType f64ToJson
  split
  · split
    · exact .whole bits ‹_›
    · exact .fraction bits (Bool.eq_false_iff.mpr ‹_›)
  · exact .null

theorem ofType_shown {data : ColumnData} {json : Json}
    (h : columnDataToJson lib data = .ok json) : OfType (jsonType data) json := by
  cases data with
  | u8 v | i16 v | i32 v | i64 v =>
    simp only [columnDataToJson, Except.ok.injEq] at h
    subst h
    cases v with
    | none => exact .null
    | some i => exact .integer _
  | f32 v | f64 v =>
    simp only [columnDataToJson, Except.ok.injEq] at h
    subst h
    cases v with
    | none => exact .null
    | some bits =>
      rw [jsonType, orNull]
      exact ofType_f64ToJson _
  | bit v =>
    simp only [columnDataToJson, Except.ok.injEq] at h
    subst h
    cases v with
    | none => exact .null
    | some b => exact .boolean b
  | string v | guid v | binary v | numeric v | xml v =>
    simp only [columnDataToJson, Except.ok.injEq] at h
    subst h
    cases v with
    | none => exact .null
    | some a => exact .string _
  | dateTime v | smallDateTime v | time v | date v | dateTime2 v =>
    cases v with
    | none =>
      simp only [columnDataToJson, temporalToJson, Except.ok.injEq] at h
      exact h ▸ .null
    | some a =>
      simp only [columnDataToJson, temporalToJson, Results.bind_eq_ok, Except.ok.injEq] at h
      obtain ⟨_, -, rfl⟩ := h
      exact .string _
  | dateTimeOffset v =>
    cases v with
    | none =>
      simp only [columnDataToJson, temporalToJson, Except.ok.injEq] at h
      exact h ▸ .null
    | some a =>
      simp only [columnDataToJson, temporalToJson, Results.bind_eq_ok, Except.ok.injEq] at h
      obtain ⟨_, -, _, -, rfl⟩ := h
      exact .string _

end Cells

/-! What a document says about the members of row objects. -/

/-- The type of a described column without its length, precision or scale. -/
def baseType (row : ResultsetRow) : String :=
  String.ofList ((row.systemTypeName.getD "").toList.takeWhile (· ≠ '('))

@[irreducible] def columnType (row : ResultsetRow) : String :=
  ((sqlToOpenapi.lookup (lower (baseType row))).getD ("string", none)).1

/-- The described columns by ordinal, those without a name under the empty one. -/
def columnTypes (rows : List ResultsetRow) : Entries String String :=
  (sortOn ordinalOf rows).map fun row => (row.columnName.getD "", columnType row)

/-- The documented type under each name, where rows are documented at all. Of the
columns with one name the last one counts. -/
def documentedTypes : ResultSet → Option (String → Option String)
  | .described rows => some fun name =>
    if name = "" then none else (columnTypes rows).reverse.lookup name
  | .fmtonly columns => some fun name => if name ∈ columns then some "string" else none
  | .noResultSet => none
  | .unknown _ => none

/-- Every member of the rows' objects has its documented type, if it has one. -/
def Matches (resultset : ResultSet) (rows : List Row) : Prop :=
  ∃ types, documentedTypes resultset = some types ∧ ∀ row ∈ rows, ∀ name data type,
    row.reverse.lookup name = some data → types name = some type →
      (jsonType data).meets type = true

/-- The keywords that demand something of a value. -/
def demanding (keyword : String) : Bool :=
  ["$ref", "type", "required", "properties", "items"].contains keyword

/-- A schema without its definitions, dialect and annotations. -/
def demandsOf : Json → Json
  | .obj fields => .obj (fields.filter fun field => demanding field.1)
  | other => other

/-- A response schema as it is embedded: with the same demands, up to the order of
its maps. -/
def Embeds (outputSchema response : Json) : Prop :=
  Reordered (demandsOf response) (demandsOf outputSchema)

section Documents

/-- A property that demands a type and nothing else. -/
def Demands (type : String) (property : Json) : Prop :=
  property.get "$ref" = none ∧ property.get "type" = some (.str type)

theorem demands_describedColumn (row : ResultsetRow) :
    Demands (columnType row) (describedColumn row) := by
  have hget : ∀ key, (describedColumn row).get key =
      (displayedSchema (baseType row) (row.systemTypeName.getD "")).get key := fun _ => rfl
  simp only [Demands, hget, displayedSchema, columnType]
  generalize (sqlToOpenapi.lookup (lower (baseType row))).getD ("string", none) = documented
  obtain ⟨oapiType, format⟩ := documented
  cases format <;> dsimp only <;> split <;> simp [Map.get_insert]

theorem Demands.of_reordered {type : String} {property property' : Json}
    (h : Demands type property) (hreordered : Reordered property property') :
    Demands type property' := by
  obtain ⟨value, hvalue, heq⟩ := hreordered.get_eq_some h.2
  exact ⟨hreordered.get_eq_none h.1, heq.eq_str ▸ hvalue⟩

theorem get_describedProperties (rows : List ResultsetRow) (name : String) :
    Option.Rel Demands (if name = "" then none else (columnTypes rows).reverse.lookup name)
      ((describedProperties rows).get name) := by
  let entry : ResultsetRow → String × Json := fun row =>
    (row.columnName.getD "", describedColumn row)
  let columns := (sortOn ordinalOf rows).map entry
  have hentries : (describedProperties rows).entries = extend [] (erase columns "") := by
    have hnamed : erase columns "" = (describedColumns rows).map entry := by
      simp only [erase, columns, List.filter_map, describedColumns]
      rfl
    have hfold := Map.entries_foldl_insert ((describedColumns rows).map entry) Map.empty
    rw [List.foldl_map] at hfold
    rw [hnamed]
    exact hfold
  have hcolumns : Option.Rel Demands ((columnTypes rows).reverse.lookup name)
      (columns.reverse.lookup name) := by
    refine lookup_rel (List.rel_reverse ?_) name
    simp only [columnTypes, columns, List.forall₂_map_left_iff, List.forall₂_map_right_iff,
      List.forall₂_same]
    exact fun row _ => ⟨rfl, demands_describedColumn row⟩
  have hreverse : (erase columns "").reverse = erase columns.reverse "" :=
    List.filter_reverse.symm
  rw [Map.get, hentries, lookup_extend_reverse, hreverse, lookup_erase]
  split
  · exact .none
  · simpa using hcolumns

/-- Each documented row type is spelled out as the properties of an object. -/
theorem items_of_documentedTypes {resultset : ResultSet} {types : String → Option String}
    (h : documentedTypes resultset = some types) :
    (buildResponseSchema resultset).get "$ref" = none ∧
      (buildResponseSchema resultset).get "type" = some (.str "array") ∧
      ∃ properties : JsonMap,
        (buildResponseSchema resultset).get "items" = some (objectSchema properties) ∧
        ∀ name, Option.Rel Demands (types name) (properties.get name) := by
  cases resultset with
  | described rows =>
    obtain rfl := Option.some.inj h
    exact ⟨rfl, rfl, _, rfl, get_describedProperties rows⟩
  | fmtonly columns =>
    obtain rfl := Option.some.inj h
    refine ⟨rfl, rfl, _, rfl, fun name => ?_⟩
    have hfold := Map.entries_foldl_insert (columns.map fun name => (name, nameOnlyColumn))
      Map.empty
    rw [List.foldl_map] at hfold
    dsimp only
    rw [Map.get, hfold, lookup_extend_reverse, ← List.map_reverse, lookup_map_const]
    simp only [List.mem_reverse]
    split
    · exact .some ⟨rfl, rfl⟩
    · exact .none
  | noResultSet | unknown => cases h

theorem type_of_undocumented {resultset : ResultSet} (h : documentedTypes resultset = none) :
    (buildResponseSchema resultset).get "type" = some (.str "object") := by
  cases resultset with
  | described | fmtonly => cases h
  | noResultSet | unknown => rfl

theorem get_demandsOf (schema : Json) {keyword : String} (h : demanding keyword = true) :
    (demandsOf schema).get keyword = schema.get keyword := by
  cases schema with
  | obj fields => exact lookup_filter_key fields h
  | null | bool | num | str | arr => rfl

namespace Embeds

variable {outputSchema response : Json} {keyword : String}

theorem get_eq_none (h : Embeds outputSchema response) (hkeyword : demanding keyword = true)
    (hnone : response.get keyword = none) : outputSchema.get keyword = none := by
  rw [← get_demandsOf outputSchema hkeyword]
  exact Reordered.get_eq_none h ((get_demandsOf response hkeyword).trans hnone)

theorem get_eq_some (h : Embeds outputSchema response) (hkeyword : demanding keyword = true)
    {value : Json} (hsome : response.get keyword = some value) :
    ∃ value', outputSchema.get keyword = some value' ∧ Reordered value value' := by
  rw [← get_demandsOf outputSchema hkeyword]
  exact Reordered.get_eq_some h ((get_demandsOf response hkeyword).trans hsome)

theorem get_eq_str (h : Embeds outputSchema response) (hkeyword : demanding keyword = true)
    {text : String} (hsome : response.get keyword = some (.str text)) :
    outputSchema.get keyword = some (.str text) := by
  obtain ⟨value, hvalue, hreordered⟩ := h.get_eq_some hkeyword hsome
  exact hreordered.eq_str ▸ hvalue

end Embeds

end Documents

section Responses

variable (lib : Libraries)

/-- Under each name an object shows the last cell of that name. -/
theorem get_of_row {row : Row} {object : Json} (h : ObjectOf lib row object) (name : String) :
    Option.Rel (fun data json => columnDataToJson lib data = .ok json) (row.reverse.lookup name)
      (object.get name) := by
  obtain ⟨rendered, hrendered, rfl⟩ := h
  rw [Json.get_obj, lookup_extend_reverse]
  have hrel : Option.Rel (fun data json => columnDataToJson lib data = .ok json)
      (row.reverse.lookup name) (rendered.reverse.lookup name) :=
    lookup_rel (List.rel_reverse (hrendered.imp fun _ _ hcell => ⟨hcell.1.symm, hcell.2⟩)) name
  simpa using hrel

variable {root itemSchema : Json} {types : String → Option String}

/-- An object meets the schema of a row when its members have their types. -/
theorem valid_object_iff {properties : JsonMap}
    (hitem : Reordered (objectSchema properties) itemSchema)
    (hproperties : ∀ name, Option.Rel Demands (types name) (properties.get name))
    {row : Row} {object : Json} (h : ObjectOf lib row object) :
    Valid root itemSchema object ↔ ∀ name data type, row.reverse.lookup name = some data →
      types name = some type → (jsonType data).meets type = true := by
  have hkeywords : (objectSchema properties).get "type" = some (.str "object") ∧
      (objectSchema properties).get "properties" = some (.obj properties.entries) ∧
      (objectSchema properties).get "$ref" = none ∧
      (objectSchema properties).get "required" = none := ⟨rfl, rfl, rfl, rfl⟩
  obtain ⟨htype, hprops, href, hrequired⟩ := hkeywords
  obtain ⟨type, htype, htypeEq⟩ := hitem.get_eq_some htype
  obtain ⟨props, hprops, hreordered⟩ := hitem.get_eq_some hprops
  obtain rfl := htypeEq.eq_str
  have hobject : ∃ fields, object = .obj fields := by
    obtain ⟨rendered, -, rfl⟩ := h
    exact ⟨_, rfl⟩
  obtain ⟨fields, rfl⟩ := hobject
  -- a property demands its type of the cell that the member shows
  have hmember : ∀ data type json property, Demands type property →
      columnDataToJson lib data = .ok json →
        (Valid root property json ↔ (jsonType data).meets type = true) := by
    intro data type json property hdemands hjson
    have hof := ofType_shown lib hjson
    rw [Valid.scalar_iff hdemands.1 hdemands.2 hof.scalar.1 hof.scalar.2, hof.hasType_eq]
  rw [Valid.members_iff (hitem.get_eq_none href) htype (hitem.get_eq_none hrequired) hprops]
  constructor
  · intro hvalid name data type hdata htypes
    obtain ⟨json, hjson, hshown⟩ := exists_of_rel_left (get_of_row lib h name) hdata
    obtain ⟨property, hproperty, hdemands⟩ := exists_of_rel_left (hproperties name) htypes
    obtain ⟨property', hproperty', heq⟩ := hreordered.get_eq_some hproperty
    exact (hmember data type json property' (hdemands.of_reordered heq) hshown).mp
      (hvalid name property' json hproperty' hjson)
  · intro hmeets name property' json hproperty' hjson
    obtain ⟨data, hdata, hshown⟩ := exists_of_rel_right (get_of_row lib h name) hjson
    cases hproperty : properties.get name with
    | none => exact absurd hproperty' (by rw [hreordered.get_eq_none hproperty]; nofun)
    | some property =>
      obtain ⟨type, htypes, hdemands⟩ := exists_of_rel_right (hproperties name) hproperty
      obtain ⟨w, hw, heq⟩ := hreordered.get_eq_some hproperty
      obtain rfl := Option.some.inj (hw.symm.trans hproperty')
      exact (hmember data type json _ (hdemands.of_reordered heq) hshown).mpr
        (hmeets name data type hdata htypes)

/-- A response meets the document exactly when its rows have the documented types. -/
theorem valid_response_iff {outputSchema : Json} {resultset : ResultSet}
    (hembeds : Embeds outputSchema (buildResponseSchema resultset)) {rows : List Row}
    {objects : List Json} (h : List.Forall₂ (ObjectOf lib) rows objects) :
    Valid root outputSchema (.arr objects) ↔ Matches resultset rows := by
  cases hdocumented : documentedTypes resultset with
  | none =>
    have htype := hembeds.get_eq_str (by decide) (type_of_undocumented hdocumented)
    constructor
    · intro hvalid
      exact absurd (hvalid.hasType_of htype) (by simp [hasType])
    · rintro ⟨types, htypes, -⟩
      rw [hdocumented] at htypes
      contradiction
  | some types =>
    obtain ⟨href, htype, properties, hitems, hproperties⟩ := items_of_documentedTypes hdocumented
    obtain ⟨itemSchema, hitemSchema, hitem⟩ := hembeds.get_eq_some (by decide) hitems
    rw [Valid.items_iff (hembeds.get_eq_none (by decide) href)
      (hembeds.get_eq_str (by decide) htype) hitemSchema]
    have hrows : (∀ object ∈ objects, Valid root itemSchema object) ↔ ∀ row ∈ rows,
        ∀ name data type, row.reverse.lookup name = some data → types name = some type →
          (jsonType data).meets type = true := by
      induction h with
      | nil => simp
      | cons hobject _ ih =>
        rw [List.forall_mem_cons, List.forall_mem_cons, ih,
          valid_object_iff lib hitem hproperties hobject]
    rw [hrows]
    constructor
    · exact fun hmeets => ⟨types, hdocumented, hmeets⟩
    · rintro ⟨types', htypes', hmeets⟩
      obtain rfl := Option.some.inj (hdocumented.symm.trans htypes')
      exact hmeets

variable (compiler : SchemaCompiler)
  (resolvedSchemasFor : String → String → Option (Json × Json)) (config : Config)

/-- A compiler whose validator accepts what meets the keywords of a schema. -/
def Decides (schema : Json) : Prop :=
  ∃ validator, compiler.validatorFor schema = some validator ∧
    ∀ value, validator.isValid value = true ↔ Valid schema schema value

variable {resolvedSchemasFor config}

theorem validateOutput_eq_ok_iff {cache : Validators}
    (h : Fresh compiler config.apiVersion
      (outputSchemaOrEmpty resolvedSchemasFor config.apiVersion) cache)
    {operationId : String} {inputSchema outputSchema : Json}
    (hstored : resolvedSchemasFor config.apiVersion operationId = some (inputSchema, outputSchema))
    (hdecides : Decides compiler outputSchema) (data : Json) :
    (validateOutput compiler resolvedSchemasFor cache config.apiVersion operationId data).1 =
      .ok () ↔ Valid outputSchema outputSchema data := by
  obtain ⟨validator, hcompiles, hvalid⟩ := hdecides
  have hschema : outputSchemaOrEmpty resolvedSchemasFor config.apiVersion operationId =
      outputSchema := by
    simp only [outputSchemaOrEmpty, hstored]
  have hserved := (h.orInsert operationId).1
  rw [hschema, SchemaCompiler.compile, hcompiles, Option.getD_some] at hserved
  rw [← hvalid data]
  unfold validateOutput validateAgainst
  simp only [hschema, SchemaCompiler.compile, hcompiles, Option.getD_some, hserved]
  by_cases hdata : validator.isValid data = true <;> simp [hdata]

/-- A call that gets as far as a statement returns the rows. -/
theorem result_of_call {process : Process} {call : CallRequest} {pool : Pool} {sql : String}
    {bound : List BoundParam} {rows : List Row} {objects : List Json}
    (hquery : .query pool sql bound ∈
      (callOperation compiler lib resolvedSchemasFor config process call).actions)
    (hanswers : call.answers.firstResult = .ok rows)
    (hobjects : List.Forall₂ (ObjectOf lib) rows objects) :
    (callOperation compiler lib resolvedSchemasFor config process call).result =
      .ok (.arr objects) := by
  have hexecuted := result_of_query_mem lib resolvedSchemasFor (action_mem_execute lib hquery) rows
  have hsame : { call.answers with firstResult := .ok rows } = call.answers := by rw [← hanswers]
  rw [hsame, jsonRows_eq_ok lib hobjects] at hexecuted
  unfold callOperation at hquery ⊢
  split
  · rename_i heq
    rw [heq] at hquery
    contradiction
  · simp only [hexecuted]

/-- After any calls before it, a call that runs a statement returns its rows, and the
check of the response passes exactly when they have the documented types. -/
theorem response_check_iff (resolvedSchemasFor : String → String → Option (Json × Json))
    (config : Config) (calls : List CallRequest) (call : CallRequest) (resultset : ResultSet)
    (inputSchema outputSchema : Json)
    (hstored : resolvedSchemasFor config.apiVersion call.operationId =
      some (inputSchema, outputSchema))
    (hembeds : Embeds outputSchema (buildResponseSchema resultset))
    (hdecides : Decides compiler outputSchema) (columns : List Column) (rows : List Row)
    (hrows : ∀ row ∈ rows, Conforms columns row) (hanswers : call.answers.firstResult = .ok rows)
    (pool : Pool) (sql : String) (bound : List BoundParam)
    (hquery : .query pool sql bound ∈ (callOperation compiler lib resolvedSchemasFor config
      (runCalls compiler lib resolvedSchemasFor config Process.initial calls) call).actions) :
    let process := runCalls compiler lib resolvedSchemasFor config Process.initial calls
    ∃ response,
      (callOperation compiler lib resolvedSchemasFor config process call).result = .ok response ∧
      ((validateOutput compiler resolvedSchemasFor process.outputValidators config.apiVersion
        call.operationId response).1 = .ok () ↔ Matches resultset rows) := by
  intro process
  obtain ⟨objects, hobjects⟩ := exists_objects lib hrows
  have hfresh : ValidatorsFresh compiler resolvedSchemasFor config process :=
    runCalls_validatorsFresh lib calls
  refine ⟨.arr objects, result_of_call lib compiler hquery hanswers hobjects, ?_⟩
  rw [validateOutput_eq_ok_iff compiler hfresh.2 hstored hdecides,
    valid_response_iff lib hembeds hobjects]

end Responses

/-! A procedure that was described with two columns. -/

def whoColumns : List ResultsetRow :=
  [⟨"sys", "sp_who", some .described, none, some 1, some "spid", some "smallint"⟩,
    ⟨"sys", "sp_who", some .described, none, some 2, some "loginame", some "nvarchar(128)"⟩]

/-- The response schema as it is embedded, with its dialect. -/
def whoOutput : Json :=
  match buildResponseSchema (.described whoColumns) with
  | .obj fields => .obj (fields ++ [("$schema", .str "2020-12")])
  | other => other

theorem whoOutput_embeds : Embeds whoOutput (buildResponseSchema (.described whoColumns)) :=
  .refl _

def whoDocumented (_ : String) (operationId : String) : Option (Json × Json) :=
  if operationId = "sys_sp_who" then some (whoInput true, whoOutput) else none

def session : I16 := ⟨51, by norm_num, by norm_num⟩

/-- A session without a login name. -/
def whoRow : Row := [("spid", .i16 (some session)), ("loginame", .string none)]

theorem whoRow_conforms : Conforms [⟨"spid", .i16⟩, ⟨"loginame", .string⟩] whoRow :=
  .cons ⟨rfl, some session, rfl, fun _ _ => trivial⟩
    (.cons ⟨rfl, none, rfl, nofun⟩ .nil)

def documentedCall : CallRequest :=
  ⟨whoEndpoint "SQL_STORED_PROCEDURE", "sys_sp_who", .obj [], answering [whoRow]⟩

theorem documentedCall_query_mem :
    .query localPool "EXEC [sys].[sp_who] @loginame = @P1" [.string none] ∈
      (callOperation keywordCompiler numericLibraries whoDocumented writableConfig Process.initial
        documentedCall).actions := by
  have hvalid : Valid (whoInput true) (whoInput true) (.obj []) := .of_empty rfl rfl rfl
  have hactions : (callOperation keywordCompiler numericLibraries whoDocumented writableConfig
      Process.initial documentedCall).actions = (execute numericLibraries whoDocumented
        writableConfig (whoEndpoint "SQL_STORED_PROCEDURE") (.obj []) (answering [whoRow])
          []).actions := by
    rw [callOperation_actions numericLibraries initial_validatorsFresh]
    exact if_pos ((keywordCompiler_isValid_iff _ _).mpr hvalid)
  rw [hactions]
  exact query_mem_of_actions_eq rfl

theorem response_check_who :
    ∃ response,
      (callOperation keywordCompiler numericLibraries whoDocumented writableConfig
        (runCalls keywordCompiler numericLibraries whoDocumented writableConfig Process.initial [])
        documentedCall).result = .ok response ∧
      ((validateOutput keywordCompiler whoDocumented
        (runCalls keywordCompiler numericLibraries whoDocumented writableConfig Process.initial
          []).outputValidators writableConfig.apiVersion "sys_sp_who" response).1 = .ok () ↔
        Matches (.described whoColumns) [whoRow]) :=
  response_check_iff numericLibraries keywordCompiler whoDocumented writableConfig []
    documentedCall (.described whoColumns) (whoInput true)
    whoOutput rfl whoOutput_embeds
    ⟨_, rfl, fun value => keywordCompiler_isValid_iff _ value⟩
    [⟨"spid", .i16⟩, ⟨"loginame", .string⟩] [whoRow]
    (List.forall_mem_singleton.mpr whoRow_conforms) rfl localPool
    "EXEC [sys].[sp_who] @loginame = @P1" [.string none] documentedCall_query_mem

/-! Columns that arrive with the types they were described with. -/

def integerTypes : List String := ["int", "bigint", "smallint", "tinyint"]
def approximateTypes : List String := ["float", "real", "money", "smallmoney"]
def exactTypes : List String := ["decimal", "numeric"]

def IsText : ColumnType → Prop
  | .string | .guid | .binary | .xml _ | .dateTime | .smallDateTime | .time _ | .date
  | .dateTime2 _ | .dateTimeOffset _ => True
  | _ => False

/-- What the driver documents of the columns that it decodes. -/
structure DriverTypes (decoded : String → ColumnType → Prop) : Prop where
  integer : ∀ {name t}, name ∈ integerTypes → decoded name t →
    t = .u8 ∨ t = .i16 ∨ t = .i32 ∨ t = .i64
  bit : ∀ {t}, decoded "bit" t → t = .bit
  approximate : ∀ {name t}, name ∈ approximateTypes → decoded name t → t = .f32 ∨ t = .f64
  exact : ∀ {name t}, name ∈ exactTypes → decoded name t → ∃ scale, t = .numeric scale
  table : ∀ {t}, ¬ decoded "table type" t
  text : ∀ {name t}, name ∉ integerTypes ++ approximateTypes ++ exactTypes →
    name ∉ ["bit", "table type"] → decoded name t → IsText t

/-- The columns of a result set are the described ones by ordinal. -/
def Arrives (decoded : String → ColumnType → Prop) (described : List ResultsetRow)
    (columns : List Column) : Prop :=
  List.Forall₂ (fun row column => column.name = row.columnName.getD "" ∧
    decoded (lower (baseType row)) column.type) (sortOn ordinalOf described) columns

/-- A cell that has a value, and not one that is kept as an exact decimal text. -/
def Plain (data : ColumnData) : Prop := jsonType data ≠ .null ∧ ∀ n, data ≠ .numeric (some n)

section Described

variable {decoded : String → ColumnType → Prop}

theorem oapiType_cases (name : String) :
    let type := ((sqlToOpenapi.lookup name).getD ("string", none)).1
    (name ∈ integerTypes ∧ type = "integer") ∨ (name = "bit" ∧ type = "boolean") ∨
      (name ∈ approximateTypes ∧ type = "number") ∨ (name ∈ exactTypes ∧ type = "number") ∨
      (name = "table type" ∧ type = "array") ∨
      (name ∉ integerTypes ++ approximateTypes ++ exactTypes ∧ name ∉ ["bit", "table type"] ∧
        type = "string") := by
  intro type
  by_cases hmem : name ∈ keys sqlToOpenapi
  · simp only [keys, sqlToOpenapi, List.map_cons, List.map_nil, List.mem_cons, List.not_mem_nil,
      or_false] at hmem
    rcases hmem with rfl | rfl | rfl | rfl | rfl | rfl | rfl | rfl | rfl | rfl | rfl | rfl | rfl |
      rfl | rfl | rfl | rfl | rfl | rfl | rfl | rfl | rfl | rfl | rfl | rfl | rfl | rfl | rfl |
      rfl | rfl | rfl <;>
      simp [type, sqlToOpenapi, lookup_cons, integerTypes, approximateTypes, exactTypes]
  · have hnone : sqlToOpenapi.lookup name = none := (lookup_eq_none_iff _ _).mpr hmem
    have hkeys : ∀ listed ∈ integerTypes ++ approximateTypes ++ exactTypes ++ ["bit", "table type"],
        listed ∈ keys sqlToOpenapi := by
      simp [integerTypes, approximateTypes, exactTypes, keys, sqlToOpenapi]
    refine .inr (.inr (.inr (.inr (.inr ⟨?_, ?_, by simp [type, hnone]⟩))))
    · exact fun h => hmem (hkeys name (List.mem_append_left _ h))
    · exact fun h => hmem (hkeys name (List.mem_append_right _ h))

theorem floatType_meets_number (bits : UInt64) :
    (floatType bits).meets "number" = true ↔ floatType bits ≠ .null := by
  unfold floatType
  split
  · split <;> simp [JsonType.meets, JsonType.name]
  · simp [JsonType.meets, JsonType.name]

/-- A cell has the documented type of its column when it is plain. -/
theorem meets_iff_plain (hdriver : DriverTypes decoded) {row : ResultsetRow} {t : ColumnType}
    (hdecoded : decoded (lower (baseType row)) t) {data : ColumnData} (h : Holds t data) :
    (jsonType data).meets (columnType row) = true ↔ Plain data := by
  obtain ⟨value, rfl, -⟩ := h
  unfold Plain columnType
  rcases oapiType_cases (lower (baseType row)) with ⟨hname, htype⟩ | ⟨hname, htype⟩ |
    ⟨hname, htype⟩ | ⟨hname, htype⟩ | ⟨hname, -⟩ | ⟨hname, hother, htype⟩
  · rw [htype]
    rcases hdriver.integer hname hdecoded with rfl | rfl | rfl | rfl <;> cases value <;>
      simp [ColumnType.cell, jsonType, JsonType.meets, JsonType.name]
  · rw [htype]
    obtain rfl := hdriver.bit (hname ▸ hdecoded)
    cases value <;> simp [ColumnType.cell, jsonType, JsonType.meets, JsonType.name]
  · rw [htype]
    rcases hdriver.approximate hname hdecoded with rfl | rfl <;> cases value with
    | none => simp [ColumnType.cell, jsonType, JsonType.meets, JsonType.name]
    | some bits =>
      simp only [ColumnType.cell, jsonType, reduceCtorEq, ne_eq, not_false_eq_true, implies_true,
        and_true]
      exact floatType_meets_number _
  · rw [htype]
    obtain ⟨scale, rfl⟩ := hdriver.exact hname hdecoded
    cases value with
    | none => simp [ColumnType.cell, jsonType, JsonType.meets, JsonType.name]
    | some n =>
      have hstring : JsonType.meets .string "number" = false := by
        simp [JsonType.meets, JsonType.name]
      simp only [ColumnType.cell, jsonType, hstring, Bool.false_eq_true, false_iff, not_and]
      exact fun _ hnever => hnever n rfl
  · exact absurd (hname ▸ hdecoded) hdriver.table
  · rw [htype]
    have htext := hdriver.text hname hother hdecoded
    cases t <;> first
      | exact htext.elim
      | (cases value <;> simp [ColumnType.cell, jsonType, JsonType.meets, JsonType.name])

/-- The documented types stand beside the cells of a row. -/
theorem columnTypes_beside {described : List ResultsetRow} {columns : List Column}
    (harrives : Arrives decoded described columns) {row : Row} (hrow : Conforms columns row) :
    List.Forall₂ (fun type cell => type.1 = cell.1 ∧ ∃ row t, type.2 = columnType row ∧
      decoded (lower (baseType row)) t ∧ Holds t cell.2) (columnTypes described) row := by
  unfold Arrives at harrives
  rw [columnTypes, List.forall₂_map_left_iff]
  generalize sortOn ordinalOf described = sorted at harrives
  induction harrives generalizing row with
  | nil =>
    cases hrow
    exact .nil
  | @cons described column _ _ hcolumn _ ih =>
    cases hrow with
    | cons hcell hrest =>
      refine .cons ⟨hcolumn.1.symm.trans hcell.1.symm, described, column.type, ?_, hcolumn.2,
        hcell.2⟩ (ih hrest)
      rfl

theorem matches_described_iff (hdriver : DriverTypes decoded) {described : List ResultsetRow}
    {columns : List Column} (harrives : Arrives decoded described columns) {rows : List Row}
    (hrows : ∀ row ∈ rows, Conforms columns row) :
    Matches (.described described) rows ↔ ∀ row ∈ rows, ∀ name data, name ≠ "" →
      row.reverse.lookup name = some data → Plain data := by
  have hcells : ∀ row ∈ rows, ∀ name, Option.Rel (fun type data => ∃ described t,
      type = columnType described ∧ decoded (lower (baseType described)) t ∧ Holds t data)
        ((columnTypes described).reverse.lookup name) (row.reverse.lookup name) :=
    fun row hrow => lookup_rel (List.rel_reverse (columnTypes_beside harrives (hrows row hrow)))
  constructor
  · rintro ⟨types, htypes, hmeets⟩ row hrow name data hname hdata
    obtain rfl := Option.some.inj htypes
    obtain ⟨type, htype, column, t, rfl, hdecoded, hholds⟩ :=
      exists_of_rel_right (hcells row hrow name) hdata
    exact (meets_iff_plain hdriver hdecoded hholds).mp
      (hmeets row hrow name data _ hdata ((if_neg hname).trans htype))
  · refine fun hplain => ⟨_, rfl, fun row hrow name data type hdata htype => ?_⟩
    by_cases hname : name = ""
    · exact absurd ((if_pos hname).symm.trans htype) nofun
    · obtain ⟨data', hdata', column, t, rfl, hdecoded, hholds⟩ :=
        exists_of_rel_left (hcells row hrow name) ((if_neg hname).symm.trans htype)
      obtain rfl := Option.some.inj (hdata.symm.trans hdata')
      exact (meets_iff_plain hdriver hdecoded hholds).mpr (hplain row hrow name data hname hdata)

/-- The documented schema accepts what is returned for rows exactly when each member
of an object with a name shows a plain cell; columns without a name are not
described. -/
theorem described_response_iff (lib : Libraries) (decoded : String → ColumnType → Prop)
    (hdriver : DriverTypes decoded) (described : List ResultsetRow) (columns : List Column)
    (harrives : Arrives decoded described columns) (rows : List Row)
    (hrows : ∀ row ∈ rows, Conforms columns row) (outputSchema response : Json)
    (hembeds : Embeds outputSchema (buildResponseSchema (.described described)))
    (hresponse : jsonRows lib rows = .ok response) :
    Valid outputSchema outputSchema response ↔ ∀ row ∈ rows, ∀ name data, name ≠ "" →
      row.reverse.lookup name = some data → Plain data := by
  obtain ⟨objects, hobjects⟩ := exists_objects lib hrows
  obtain rfl := Except.ok.inj ((jsonRows_eq_ok lib hobjects).symm.trans hresponse)
  rw [valid_response_iff lib hembeds hobjects, matches_described_iff hdriver harrives hrows]

end Described

/-- Two of the types that the driver decodes. -/
def decodedTypes (name : String) (t : ColumnType) : Prop :=
  (name = "smallint" ∧ t = .i16) ∨ (name = "nvarchar" ∧ t = .string)

theorem decodedTypes_driver : DriverTypes decodedTypes where
  integer := by
    rintro name t hname (⟨rfl, rfl⟩ | ⟨rfl, rfl⟩)
    · simp
    · simp [integerTypes] at hname
  bit := by simp [decodedTypes]
  approximate := by
    rintro name t hname (⟨rfl, rfl⟩ | ⟨rfl, rfl⟩) <;> simp [approximateTypes] at hname
  exact := by
    rintro name t hname (⟨rfl, rfl⟩ | ⟨rfl, rfl⟩) <;> simp [exactTypes] at hname
  table := by simp [decodedTypes]
  text := by
    rintro name t hname - (⟨rfl, rfl⟩ | ⟨rfl, rfl⟩)
    · simp [integerTypes] at hname
    · trivial

def sessionNumber : JsonInt := ⟨51, by norm_num, by norm_num⟩

theorem described_response_who :
    Valid whoOutput whoOutput
        (.arr [.obj [("spid", .num (.int sessionNumber)), ("loginame", .null)]]) ↔
      ∀ row ∈ [whoRow], ∀ name data, name ≠ "" → row.reverse.lookup name = some data → Plain data :=
  described_response_iff numericLibraries decodedTypes decodedTypes_driver whoColumns
    [⟨"spid", .i16⟩, ⟨"loginame", .string⟩]
    (.cons ⟨rfl, .inl ⟨by decide, rfl⟩⟩ (.cons ⟨rfl, .inr ⟨by decide, rfl⟩⟩ .nil)) [whoRow]
    (List.forall_mem_singleton.mpr whoRow_conforms) _ _ whoOutput_embeds rfl

end SqlServerMcp.ResponseSchemas
