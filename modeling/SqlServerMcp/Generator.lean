import SqlServerMcp.JsonValue
import SqlServerMcp.Ranking
import SqlServerMcp.Text

/-!
The generator's request schema of an operation. Each input parameter that the
catalog lists becomes a property with its exact SQL type and its ordinal, and
every operation gets one more property that selects the database.
-/
namespace SqlServerMcp.Generator

open AssocMap FixedWidth JsonValue Ranking Text

/-- A row of the catalog's parameter list. -/
structure ParamRow where
  parameterName : Option String
  ordinal : ℕ
  dataType : String
  maxLength : Option ℤ
  precision : Option ℤ
  scale : Option ℤ
  isOutput : Bool
  hasDefaultValue : Bool
  defaultValue : Option Json
  ordinal_lt : ordinal < 2 ^ 31

/-- The ordinals of the first two parameters are in range. -/
theorem firstOrdinal_lt : 1 < 2 ^ 31 := by decide

theorem secondOrdinal_lt : 2 < 2 ^ 31 := by decide

def executionDatabaseParam : String := "execution_database"

/-- The OpenAPI type and format of a SQL type. -/
def sqlToOpenapi : List (String × String × Option String) :=
  [("int", "integer", some "int32"),
   ("bigint", "integer", some "int64"),
   ("smallint", "integer", some "int32"),
   ("tinyint", "integer", some "int32"),
   ("bit", "boolean", none),
   ("decimal", "number", some "double"),
   ("numeric", "number", some "double"),
   ("float", "number", some "double"),
   ("real", "number", some "float"),
   ("money", "number", some "double"),
   ("smallmoney", "number", some "double"),
   ("datetime", "string", some "date-time"),
   ("datetime2", "string", some "date-time"),
   ("smalldatetime", "string", some "date-time"),
   ("date", "string", some "date"),
   ("time", "string", none),
   ("datetimeoffset", "string", some "date-time"),
   ("uniqueidentifier", "string", some "uuid"),
   ("varchar", "string", none),
   ("nvarchar", "string", none),
   ("char", "string", none),
   ("nchar", "string", none),
   ("text", "string", none),
   ("ntext", "string", none),
   ("xml", "string", none),
   ("sql_variant", "string", none),
   ("varbinary", "string", some "byte"),
   ("binary", "string", some "byte"),
   ("image", "string", some "byte"),
   ("cursor", "string", none),
   ("table type", "array", none)]

def unicodeStringTypes : List String := ["nvarchar", "nchar", "ntext"]
def byteLengthStringTypes : List String :=
  ["varchar", "char", "varbinary", "binary", "text", "image"]
def precisionScaleTypes : List String := ["decimal", "numeric"]
def scaleOnlyTypes : List String := ["time", "datetime2", "datetimeoffset"]

def lower (s : String) : String := String.ofList (toAsciiLowercase s.toList)

/-- A SQL type with its length, precision or scale, as in a declaration. -/
def formatSqlType (dataType : String) (maxLength precision scale : Option ℤ) : String :=
  let dt := lower dataType
  if dt ∈ precisionScaleTypes ∧ precision.isSome then
    dataType ++ "(" ++ toString (precision.getD 0) ++ "," ++ toString (scale.getD 0) ++ ")"
  else if dt ∈ scaleOnlyTypes ∧ scale.getD 0 ≠ 0 then
    dataType ++ "(" ++ toString (scale.getD 0) ++ ")"
  else if dt ∈ unicodeStringTypes then
    match maxLength with
    | none => dataType
    | some length =>
      if length = -1 then dataType ++ "(max)" else dataType ++ "(" ++ toString (length / 2) ++ ")"
  else if dt ∈ byteLengthStringTypes then
    match maxLength with
    | none => dataType
    | some length =>
      if length = -1 then dataType ++ "(max)" else dataType ++ "(" ++ toString length ++ ")"
  else dataType

def sqlTypeToSchema (dataType : String) (maxLength precision scale : Option ℤ) : JsonMap :=
  let (oapiType, format) := (sqlToOpenapi.lookup (lower dataType)).getD ("string", none)
  let schema : JsonMap := Map.empty.insert "type" (.str oapiType)
  let schema := match format with
    | some format => schema.insert "format" (.str format)
    | none => schema
  let schema :=
    if oapiType = "array" then schema.insert "items" (.obj [("type", .str "object")]) else schema
  schema.insert "x-sql-type" (.str (formatSqlType dataType maxLength precision scale))

namespace ParamRow

/-- The parameter's name without its sigil, or one made of its ordinal. -/
def name (p : ParamRow) : String :=
  match p.parameterName with
  | some s =>
    if s = "" then "param" ++ toString p.ordinal
    else String.ofList (s.toList.dropWhile (· = '@'))
  | none => "param" ++ toString p.ordinal

def sqlType (p : ParamRow) : String :=
  formatSqlType p.dataType p.maxLength p.precision p.scale

def ordinalJson (p : ParamRow) : Json :=
  .num (.int ⟨p.ordinal, by omega, by have := p.ordinal_lt; omega⟩)

def propertySchema (p : ParamRow) : JsonMap :=
  let schema := sqlTypeToSchema p.dataType p.maxLength p.precision p.scale
  let schema := match p.defaultValue with
    | some default => schema.insert "default" default
    | none => schema
  schema.insert "x-sql-ordinal" p.ordinalJson

end ParamRow

/-- The property that every operation gets beside its own parameters. -/
def syntheticProperty (foundInDatabases : List String) : Json :=
  .obj [("type", .str "string"),
    ("description", .str
      ("Optional execution context: the database to run this operation against " ++
        "(SQL Server two/three-part-name qualification). This is NOT a real " ++
        "parameter of the underlying SQL Server object -- it never appears in " ++
        "sys.all_parameters for it -- it's added by tools/generate_openapi.py to " ++
        "every operation. This object was found, identically, in: " ++
        ", ".intercalate foundInDatabases ++ ". If omitted, the server's configured " ++
        "default database is used if one was set up (optional, see setup); " ++
        "otherwise the connection's own current database context applies " ++
        "(equivalent to DB_NAME()/DB_ID()).")),
    ("x-sql-synthetic", .bool true)]

/-- The input parameters by ordinal. -/
def inputParams (params : List ParamRow) : List ParamRow :=
  rank ParamRow.ordinal (params.filter fun p => !p.isOutput)

def requestProperties (params : List ParamRow) (foundInDatabases : List String) : JsonMap :=
  let properties := (inputParams params).foldl
    (fun properties p => properties.insert p.name (.obj p.propertySchema.entries)) Map.empty
  properties.insert executionDatabaseParam (syntheticProperty foundInDatabases)

def requiredNames (params : List ParamRow) : List String :=
  ((inputParams params).filter fun p => !p.hasDefaultValue).map ParamRow.name

/-- The schema of the request body, as the generator writes it. -/
def buildRequestSchema (params : List ParamRow) (foundInDatabases : List String) : Json :=
  let body := (Map.empty.insert "type" (.str "object")).insert "properties"
    (.obj (requestProperties params foundInDatabases).entries)
  let required := requiredNames params
  .obj (if required = [] then body
    else body.insert "required" (.arr (required.map .str))).entries

theorem sqlTypeToSchema_get_type (dataType : String) (maxLength precision scale : Option ℤ) :
    (sqlTypeToSchema dataType maxLength precision scale).get "x-sql-type" =
      some (.str (formatSqlType dataType maxLength precision scale)) :=
  Map.get_insert_self _ _ _

namespace ParamRow

theorem propertySchema_get_ordinal (p : ParamRow) :
    p.propertySchema.get "x-sql-ordinal" = some p.ordinalJson :=
  Map.get_insert_self _ _ _

theorem propertySchema_get_type (p : ParamRow) :
    p.propertySchema.get "x-sql-type" = some (.str p.sqlType) := by
  unfold propertySchema
  rw [Map.get_insert_of_ne _ _ (by decide)]
  cases p.defaultValue with
  | none => exact sqlTypeToSchema_get_type _ _ _ _
  | some default =>
    simp only []
    rw [Map.get_insert_of_ne _ _ (by decide)]
    exact sqlTypeToSchema_get_type _ _ _ _

end ParamRow

theorem inputParams_perm {params : List ParamRow} (h : ∀ p ∈ params, p.isOutput = false) :
    (inputParams params).Perm params := by
  have hfilter : (params.filter fun p => !p.isOutput) = params :=
    List.filter_eq_self.mpr fun p hp => by simp [h p hp]
  unfold inputParams
  rw [hfilter]
  exact rank_perm _ _

theorem mem_inputParams (params : List ParamRow) (p : ParamRow) :
    p ∈ inputParams params ↔ p ∈ params ∧ p.isOutput = false := by
  unfold inputParams
  rw [(rank_perm _ _).mem_iff, List.mem_filter, Bool.not_eq_true']

/-- The properties are named after the input parameters and the synthetic one. -/
theorem mem_keys_requestProperties (params : List ParamRow) (foundInDatabases : List String)
    (name : String) :
    name ∈ keys (requestProperties params foundInDatabases).entries ↔
      name = executionDatabaseParam ∨ ∃ p ∈ params, p.isOutput = false ∧ p.name = name := by
  have hkeys := Map.mem_keys_foldl_insert (inputParams params) ParamRow.name
    (fun p => Json.obj p.propertySchema.entries) Map.empty name
  have hinsert := mem_keys_insert ((inputParams params).foldl (fun (properties : JsonMap) p =>
      properties.insert p.name (.obj p.propertySchema.entries)) Map.empty).entries
    executionDatabaseParam name (syntheticProperty foundInDatabases)
  refine hinsert.trans (or_congr_right (hkeys.trans ?_))
  simp only [List.mem_map, mem_inputParams, and_assoc]
  constructor
  · intro hparts
    rcases hparts with hempty | h
    · contradiction
    · exact h
  · exact Or.inr

/-- Under distinct names that are not the synthetic one, the properties are
those of the parameters by ordinal, and then the synthetic one. -/
theorem requestProperties_entries {params : List ParamRow} (foundInDatabases : List String)
    (hnames : ((inputParams params).map ParamRow.name).Nodup)
    (hreserved : ∀ p ∈ inputParams params, p.name ≠ executionDatabaseParam) :
    (requestProperties params foundInDatabases).entries =
      (inputParams params).map (fun p => (p.name, .obj p.propertySchema.entries)) ++
        [(executionDatabaseParam, syntheticProperty foundInDatabases)] := by
  have hfold : (inputParams params).foldl (fun (properties : JsonMap) p =>
        properties.insert p.name (.obj p.propertySchema.entries)) Map.empty =
      ((inputParams params).map fun p => (p.name, Json.obj p.propertySchema.entries)).foldl
        (fun acc e => acc.insert e.1 e.2) Map.empty := by
    rw [List.foldl_map]
  have hdistinct : DistinctKeys
      ((inputParams params).map fun p => (p.name, Json.obj p.propertySchema.entries)) := by
    simp only [DistinctKeys, keys, List.map_map]
    exact hnames
  have hentries := Map.entries_foldl_insert_of_distinct _ hdistinct
  have hnone : (((inputParams params).map fun p =>
      (p.name, Json.obj p.propertySchema.entries)).foldl
        (fun (acc : JsonMap) e => acc.insert e.1 e.2) Map.empty).get executionDatabaseParam =
      none := by
    unfold Map.get
    rw [hentries, lookup_eq_none_iff]
    simp only [keys, List.map_map, List.mem_map, Function.comp_apply, not_exists, not_and]
    intro p hp
    exact hreserved p hp
  unfold requestProperties
  rw [hfold, Map.entries_insert_of_get_eq_none _ _ _ hnone, hentries]

theorem buildRequestSchema_get_properties (params : List ParamRow)
    (foundInDatabases : List String) :
    (buildRequestSchema params foundInDatabases).get "properties" =
      some (.obj (requestProperties params foundInDatabases).entries) := by
  by_cases h : requiredNames params = []
  · simp only [buildRequestSchema, h, if_true]
    rfl
  · simp only [buildRequestSchema, h, if_false]
    rfl

theorem buildRequestSchema_get_ref (params : List ParamRow) (foundInDatabases : List String) :
    (buildRequestSchema params foundInDatabases).get "$ref" = none := by
  by_cases h : requiredNames params = []
  · simp only [buildRequestSchema, h, if_true]
    rfl
  · simp only [buildRequestSchema, h, if_false]
    rfl

end SqlServerMcp.Generator
