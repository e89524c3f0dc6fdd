import SqlServerMcp.Generator
import SqlServerMcp.Statement

/-!
From the generator's request schema to the arguments of a function call. The
schema is stored under the `body` property of the input schema, inline or
behind one reference, and its maps may be listed in any order on the way; the
ordinals put the parameters back in order.
-/
namespace SqlServerMcp.FunctionCalls

open AssocMap FixedWidth JsonValue Ranking Results SqlType SqlValue Text
open Generator (ParamRow buildRequestSchema inputParams firstOrdinal_lt secondOrdinal_lt)
open Statement

/-- An input schema that holds a request schema under `properties.body`, up to
the order of its maps. -/
inductive Carries (inputSchema body : Json) : Prop
  | inline (properties carried : Json) :
      inputSchema.get "properties" = some properties →
      properties.get "body" = some carried → Reordered body carried →
      Carries inputSchema body
  | reference (properties wrapper defs carried : Json) (name : String) :
      inputSchema.get "properties" = some properties →
      properties.get "body" = some wrapper →
      wrapper.get "$ref" = some (.str ("#/$defs/" ++ name)) →
      inputSchema.get "$defs" = some defs →
      defs.get name = some carried → Reordered body carried →
      Carries inputSchema body

theorem asObject_of_reordered {body carried : Json} {fields : Fields}
    (hbody : body.get "properties" = some (.obj fields)) (h : Reordered body carried) :
    ∃ fields', (carried.get "properties").bind Json.asObject = some fields' ∧
      Reordered (.obj fields) (.obj fields') := by
  obtain ⟨value, hcarried, hvalue⟩ := h.get_eq_some hbody
  obtain ⟨fields', rfl, _, _⟩ := Reordered.of_obj hvalue fields rfl
  refine ⟨fields', ?_, hvalue⟩
  rw [hcarried]
  rfl

/-- The client finds the carried parameter properties, in some order. -/
theorem Carries.requestProperties_eq {inputSchema body : Json} {fields : Fields}
    (h : Carries inputSchema body) (hbody : body.get "properties" = some (.obj fields))
    (href : body.get "$ref" = none) :
    ∃ fields', requestProperties inputSchema = some fields' ∧
      Reordered (.obj fields) (.obj fields') := by
  cases h with
  | inline properties carried hproperties hcarried hreordered =>
    obtain ⟨fields', hfields, hrel⟩ := asObject_of_reordered hbody hreordered
    refine ⟨fields', ?_, hrel⟩
    have hnone := hreordered.get_eq_none href
    simpa [requestProperties, hproperties, hcarried, hnone, Option.bind_eq_bind] using hfields
  | reference properties wrapper defs carried name hproperties hwrapper hpointer hdefs hcarried
      hreordered =>
    obtain ⟨fields', hfields, hrel⟩ := asObject_of_reordered hbody hreordered
    refine ⟨fields', ?_, hrel⟩
    simpa [requestProperties, hproperties, hwrapper, hpointer, Json.asStr, stripPrefix_append,
      hdefs, hcarried, Option.bind_eq_bind] using hfields

theorem paramOf_reordered (key : String) (v w : Json) (h : Reordered v w) :
    paramOf (key, v) = paramOf (key, w) := by
  unfold paramOf
  rw [h.get_bind "x-sql-ordinal" Json.asU64 fun _ _ h => h.asU64_eq,
    h.get_bind "x-sql-type" Json.asStr fun _ _ h => h.asStr_eq]

/-- The client's parameter for a row of the catalog. -/
def rowParam (p : ParamRow) : Param := ⟨p.name, p.ordinal, p.sqlType⟩

theorem paramOf_propertySchema (p : ParamRow) :
    paramOf (p.name, .obj p.propertySchema.entries) = rowParam p := by
  have hordinal : p.propertySchema.entries.lookup "x-sql-ordinal" = some p.ordinalJson :=
    p.propertySchema_get_ordinal
  have htype : p.propertySchema.entries.lookup "x-sql-type" = some (.str p.sqlType) :=
    p.propertySchema_get_type
  simp [paramOf, rowParam, hordinal, htype, Json.asStr, Json.asU64, ParamRow.ordinalJson]

def declaredParams (fields : Fields) : List Param :=
  (fields.filter fun property => property.1 ≠ executionDatabaseParam).map paramOf

theorem declaredParams_eq_filter (fields : Fields) :
    declaredParams fields =
      (fields.map paramOf).filter fun p => p.name ≠ executionDatabaseParam := by
  unfold declaredParams
  rw [List.filter_map]
  rfl

/-- Reordered properties declare the same parameters, in some order. -/
theorem declaredParams_perm {fields fields' : Fields}
    (h : Reordered (.obj fields) (.obj fields')) :
    (declaredParams fields).Perm (declaredParams fields') := by
  obtain ⟨fields'', heq, _, hmap⟩ := Reordered.of_obj h fields rfl
  obtain rfl := Json.obj.inj heq
  rw [declaredParams_eq_filter, declaredParams_eq_filter]
  exact (hmap (fun key value => paramOf (key, value)) paramOf_reordered).filter _

/-- The client's parameters are named after the catalog's input parameters, each
once. -/
theorem orderedParams_names {rows : List ParamRow} {foundInDatabases : List String}
    {inputSchema : Json}
    (hcarries : Carries inputSchema (buildRequestSchema rows foundInDatabases)) :
    ((orderedParams inputSchema).map Param.name).Nodup ∧
      ∀ name, name ∈ (orderedParams inputSchema).map Param.name ↔
        name ≠ executionDatabaseParam ∧ ∃ p ∈ rows, p.isOutput = false ∧ p.name = name := by
  obtain ⟨fields, hfields, hreordered⟩ := hcarries.requestProperties_eq
    (Generator.buildRequestSchema_get_properties rows foundInDatabases)
    (Generator.buildRequestSchema_get_ref rows foundInDatabases)
  have hordered : orderedParams inputSchema = rank Param.ordinal (declaredParams fields) := by
    simp only [orderedParams, hfields, Option.getD_some, declaredParams]
  have hperm : ((orderedParams inputSchema).map Param.name).Perm
      ((declaredParams (Generator.requestProperties rows foundInDatabases).entries).map
        Param.name) := by
    rw [hordered]
    exact ((rank_perm _ _).trans (declaredParams_perm hreordered).symm).map Param.name
  have hkeys : (declaredParams (Generator.requestProperties rows foundInDatabases).entries).map
      Param.name = (keys (Generator.requestProperties rows foundInDatabases).entries).filter
        fun name => name ≠ executionDatabaseParam := by
    unfold declaredParams keys
    rw [List.map_map, List.filter_map]
    rfl
  rw [hkeys] at hperm
  refine ⟨hperm.nodup_iff.mpr
    ((Generator.requestProperties rows foundInDatabases).distinct.filter _), ?_⟩
  intro name
  rw [hperm.mem_iff, List.mem_filter, Generator.mem_keys_requestProperties]
  simp only [ne_eq, decide_eq_true_eq]
  constructor
  · intro hparts
    rcases hparts with ⟨hreserved | hrow, hne⟩
    · exact absurd hreserved hne
    · exact ⟨hne, hrow⟩
  · intro hparts
    rcases hparts with ⟨hne, hrow⟩
    exact ⟨Or.inr hrow, hne⟩

theorem declaredParams_requestProperties {rows : List ParamRow} (foundInDatabases : List String)
    (hnames : ((inputParams rows).map ParamRow.name).Nodup)
    (hreserved : ∀ p ∈ inputParams rows, p.name ≠ executionDatabaseParam) :
    declaredParams (Generator.requestProperties rows foundInDatabases).entries =
      (inputParams rows).map rowParam := by
  rw [declaredParams_eq_filter,
    Generator.requestProperties_entries foundInDatabases hnames hreserved]
  simp only [List.map_append, List.map_map, List.filter_append, List.map_cons, List.map_nil]
  have hrows : (inputParams rows).map
      (paramOf ∘ fun p => (p.name, Json.obj p.propertySchema.entries)) =
        (inputParams rows).map rowParam := by
    refine List.map_congr_left fun p _ => ?_
    exact paramOf_propertySchema p
  have hkeep : ((inputParams rows).map rowParam).filter
      (fun p => p.name ≠ executionDatabaseParam) = (inputParams rows).map rowParam := by
    refine List.filter_eq_self.mpr fun q hq => ?_
    obtain ⟨p, hp, rfl⟩ := List.mem_map.mp hq
    exact decide_eq_true (hreserved p hp)
  rw [hrows, hkeep]
  simp [paramOf, Generator.executionDatabaseParam, executionDatabaseParam]

/-- The client's parameters are those of the catalog, by ordinal. -/
theorem orderedParams_of_carries {rows : List ParamRow} {foundInDatabases : List String}
    {inputSchema : Json} (hcarries : Carries inputSchema (buildRequestSchema rows foundInDatabases))
    (hinput : ∀ p ∈ rows, p.isOutput = false) (hordinals : (rows.map ParamRow.ordinal).Nodup)
    (hnames : (rows.map ParamRow.name).Nodup)
    (hreserved : ∀ p ∈ rows, p.name ≠ executionDatabaseParam) :
    orderedParams inputSchema = (rank ParamRow.ordinal rows).map rowParam := by
  have hperm := Generator.inputParams_perm hinput
  have hnames' : ((inputParams rows).map ParamRow.name).Nodup :=
    (hperm.map ParamRow.name).nodup_iff.mpr hnames
  have hreserved' : ∀ p ∈ inputParams rows, p.name ≠ executionDatabaseParam :=
    fun p hp => hreserved p (hperm.mem_iff.mp hp)
  obtain ⟨fields, hfields, hreordered⟩ := hcarries.requestProperties_eq
    (Generator.buildRequestSchema_get_properties rows foundInDatabases)
    (Generator.buildRequestSchema_get_ref rows foundInDatabases)
  have hdeclared := declaredParams_perm hreordered
  rw [declaredParams_requestProperties foundInDatabases hnames' hreserved'] at hdeclared
  have hrows : (rows.map rowParam).Perm (declaredParams fields) :=
    ((hperm.map rowParam).symm).trans hdeclared
  have hdistinct : ((rows.map rowParam).map Param.ordinal).Nodup := by
    rw [List.map_map]
    exact hordinals
  calc
    orderedParams inputSchema = rank Param.ordinal (declaredParams fields) := by
      simp only [orderedParams, hfields, Option.getD_some, declaredParams]
    _ = rank Param.ordinal (rows.map rowParam) :=
      (rank_eq_of_perm Param.ordinal hrows hdistinct).symm
    _ = (rank ParamRow.ordinal rows).map rowParam :=
      (map_rank ParamRow.ordinal rowParam Param.ordinal (fun _ => rfl) rows).symm

/-- A function call passes one placeholder for each declared parameter; the
placeholder at position `i` is bound to the argument of the parameter with the
`i`-th smallest ordinal, converted under that parameter's SQL type. -/
theorem function_arguments_by_ordinal (lib : Libraries) (rows : List ParamRow)
    (foundInDatabases : List String) (inputSchema : Json) (kind : String)
    (hcarries : Carries inputSchema (buildRequestSchema rows foundInDatabases))
    (hinput : ∀ p ∈ rows, p.isOutput = false) (hordinals : (rows.map ParamRow.ordinal).Nodup)
    (hnames : (rows.map ParamRow.name).Nodup)
    (hreserved : ∀ p ∈ rows, p.name ≠ executionDatabaseParam)
    (hkind : endsWith kind "_FUNCTION" = true ∨ contains kind "TABLE_VALUED_FUNCTION" = true)
    (schema name : String) (body : Fields) (executionDatabase : Option String) :
    ∃ ranked : List ParamRow, ranked.Perm rows ∧
      ranked.Pairwise (fun p q => p.ordinal < q.ordinal) ∧
      buildStatement lib schema name (some kind) (orderedParams inputSchema) body
          executionDatabase =
        (do
          let bound ← ranked.mapM fun p =>
            jsonToParam lib ((body.lookup p.name).getD .null) p.sqlType
          .ok ("SELECT * FROM " ++ qualifiedName schema name executionDatabase ++ "(" ++
            placeholders rows.length ++ ")", bound)) := by
  refine ⟨rank ParamRow.ordinal rows, rank_perm _ rows, rank_pairwise_lt _ hordinals, ?_⟩
  have hview : kind ≠ "VIEW" := by
    intro h
    subst h
    rcases hkind with hsuffix | htable
    · exact absurd hsuffix (by decide)
    · exact absurd htable (by decide)
  have hform : callForm (some kind) = .function := by
    rw [callForm_of_ne_view kind hview, if_pos]
    simpa using hkind
  rw [orderedParams_of_carries hcarries hinput hordinals hnames hreserved]
  have hbind : bindParams lib ((rank ParamRow.ordinal rows).map rowParam) body =
      (rank ParamRow.ordinal rows).mapM fun p =>
        jsonToParam lib ((body.lookup p.name).getD .null) p.sqlType := by
    simp only [bindParams, List.mapM_map, Function.comp_def, argument, rowParam]
  unfold buildStatement
  rw [hbind]
  cases hbound : (rank ParamRow.ordinal rows).mapM fun p =>
      jsonToParam lib ((body.lookup p.name).getD .null) p.sqlType with
  | error fault => rw [error_bind, error_bind]
  | ok bound =>
    have hlength : bound.length = rows.length := by
      rw [length_of_mapM hbound, (rank_perm ParamRow.ordinal rows).length_eq]
    rw [ok_bind, ok_bind, statementText_eq, hform, hlength]
    exact ok_bind _ _

def catalogRow (name : String) (ordinal : ℕ) (dataType : String) (h : ordinal < 2 ^ 31) :
    ParamRow where
  parameterName := some name
  ordinal := ordinal
  dataType := dataType
  maxLength := none
  precision := none
  scale := none
  isOutput := false
  hasDefaultValue := false
  defaultValue := none
  ordinal_lt := h

/-- Two parameters listed against their ordinals. -/
def statsRows : List ParamRow :=
  [catalogRow "@mode" 2 "sysname" secondOrdinal_lt,
    catalogRow "@database_id" 1 "smallint" firstOrdinal_lt]

/-- The request schema with its members reversed, behind a reference. -/
def statsInput : Json :=
  .obj [("$defs", .obj [("stats_Request", .obj
      [("required", .arr [.str "database_id", .str "mode"]),
        ("properties", .obj (Generator.requestProperties statsRows ["master"]).entries),
        ("type", .str "object")])]),
    ("properties", .obj [("body", .obj [("$ref", .str "#/$defs/stats_Request")])])]

theorem statsInput_carries : Carries statsInput (buildRequestSchema statsRows ["master"]) := by
  refine .reference _ _ _ _ "stats_Request" rfl rfl rfl rfl rfl ?_
  exact .order (by decide) (List.reverse_perm _).symm

theorem stats_arguments_by_ordinal :
    ∃ ranked : List ParamRow, ranked.Perm statsRows ∧
      ranked.Pairwise (fun p q => p.ordinal < q.ordinal) ∧
      buildStatement numericLibraries "sys" "stats" (some "SQL_INLINE_TABLE_VALUED_FUNCTION")
          (orderedParams statsInput) [("mode", .str "LIMITED")] none =
        (do
          let bound ← ranked.mapM fun p => jsonToParam numericLibraries
            ((List.lookup p.name [("mode", .str "LIMITED")]).getD .null) p.sqlType
          .ok ("SELECT * FROM " ++ qualifiedName "sys" "stats" none ++ "(" ++
            placeholders statsRows.length ++ ")", bound)) :=
  function_arguments_by_ordinal numericLibraries statsRows ["master"] statsInput
    "SQL_INLINE_TABLE_VALUED_FUNCTION" statsInput_carries (by decide) (by decide) (by decide)
    (by decide) (Or.inl (by decide)) "sys" "stats" [("mode", .str "LIMITED")] none

end SqlServerMcp.FunctionCalls
