import SqlServerMcp.ColumnTypes
import SqlServerMcp.StatementForms

/-!
What the objects of a result set keep of its rows. A row becomes an object with
one member for each column name. While the names are distinct every cell can be
read off the object again; of two columns with one name the last one wins.
-/
namespace SqlServerMcp.RowObjects

open AssocMap ColumnTypes ConfigSchema FixedWidth JsonValue Results SqlPool SqlType SqlValue
open ApiClient StatementForms

structure Column where
  name : String
  type : ColumnType

/-- A row of a result set with these columns. -/
def Conforms (columns : List Column) (row : Row) : Prop :=
  List.Forall₂ (fun column cell => cell.1 = column.name ∧ Holds column.type cell.2) columns row

/-- The object stands for the row in what is returned for some result set. -/
def Returned (result : List Row → Except Fault Json) (columns : List Column) (row : Row)
    (object : Json) : Prop :=
  ∃ (rows : List Row) (objects : List Json) (j : ℕ), (∀ r ∈ rows, Conforms columns r) ∧
    result rows = .ok (.arr objects) ∧ rows[j]? = some row ∧ objects[j]? = some object

/-- Some column has different cells in two rows. -/
def Differ (row row' : Row) : Prop :=
  ∃ (i : ℕ) (cell cell' : String × ColumnData), row[i]? = some cell ∧ row'[i]? = some cell' ∧
    cell.2 ≠ cell'.2 ∧ ¬ IsNonFinite cell.2 ∧ ¬ IsNonFinite cell'.2

/-- A result set with these columns is returned as one object for each row, in
order, and every column of a row can be read off its object. The numbers that
JSON lacks are left out. -/
structure LosesNoCell (result : List Row → Except Fault Json) (columns : List Column) :
    Prop where
  objects : ∀ rows, (∀ row ∈ rows, Conforms columns row) →
    ∃ objects, result rows = .ok (.arr objects) ∧ objects.length = rows.length ∧
      ∀ object ∈ objects, ∃ fields, object = .obj fields
  recovered : ∀ i, i < columns.length → ∃ decode : Json → ColumnData,
    ∀ row object cell, Returned result columns row object → row[i]? = some cell →
      ¬ IsNonFinite cell.2 → decode object = cell.2
  apart : ∀ row row' object object', Returned result columns row object →
    Returned result columns row' object' → Differ row row' →
      ∃ name, object.get name ≠ object'.get name

section Objects

variable (lib : Libraries)

def Renders (cell : String × ColumnData) (entry : String × Json) : Prop :=
  entry.1 = cell.1 ∧ columnDataToJson lib cell.2 = .ok entry.2

def ObjectOf (row : Row) (object : Json) : Prop :=
  ∃ rendered, List.Forall₂ (Renders lib) row rendered ∧
    object = .obj (AssocMap.extend [] rendered)

theorem rowObject_eq_ok {row : Row} {rendered : Fields}
    (h : List.Forall₂ (Renders lib) row rendered) :
    ∃ m : JsonMap, rowObject lib row = .ok m ∧ m.entries = AssocMap.extend [] rendered := by
  let entryOf (cell : String × ColumnData) : Except Fault (String × Json) :=
    (columnDataToJson lib cell.2).map fun value => (cell.1, value)
  let add (obj : JsonMap) (e : String × Json) : JsonMap := obj.insert e.1 e.2
  have hentries : row.mapM entryOf = .ok rendered := by
    refine (mapM_eq_ok_iff row entryOf rendered).mpr (h.imp fun cell entry hentry => ?_)
    exact (map_eq_ok _ _ _).mpr ⟨entry.2, hentry.2, Prod.ext hentry.1.symm rfl⟩
  have hloop : rowObject lib row =
      row.foldlM (fun obj cell => (entryOf cell).map (add obj)) Map.empty := by
    unfold rowObject
    congr 1
    funext obj cell
    simp only [entryOf]
    cases columnDataToJson lib cell.2 <;> rfl
  refine ⟨_, ?_, Map.entries_foldl_insert rendered Map.empty⟩
  rw [hloop, foldlM_eq_map_mapM entryOf add, hentries]
  rfl

theorem exists_objectOf {columns : List Column} {row : Row} (h : Conforms columns row) :
    ∃ object, ObjectOf lib row object := by
  have hrendered : ∃ rendered, List.Forall₂ (Renders lib) row rendered := by
    induction h with
    | nil => exact ⟨[], List.Forall₂.nil⟩
    | @cons column cell _ _ hcell _ ih =>
      obtain ⟨rendered, hrendered⟩ := ih
      obtain ⟨json, hjson⟩ := cell_shown lib hcell.2
      exact ⟨(cell.1, json) :: rendered, List.Forall₂.cons ⟨rfl, hjson⟩ hrendered⟩
  obtain ⟨rendered, hrendered⟩ := hrendered
  exact ⟨_, rendered, hrendered, rfl⟩

/-- The rows of a result set and the objects returned for them. -/
theorem jsonRows_eq_ok {rows : List Row} {objects : List Json}
    (h : List.Forall₂ (ObjectOf lib) rows objects) : jsonRows lib rows = .ok (.arr objects) := by
  have hmaps : ∃ maps, rows.mapM (rowObject lib) = .ok maps ∧
      objects = maps.map fun m => .obj m.entries := by
    induction h with
    | nil => exact ⟨[], rfl, rfl⟩
    | @cons row object _ _ hobject _ ih =>
      obtain ⟨maps, hmaps, rfl⟩ := ih
      obtain ⟨rendered, hrendered, rfl⟩ := hobject
      obtain ⟨m, hm, hentries⟩ := rowObject_eq_ok lib hrendered
      refine ⟨m :: maps, ?_, by rw [List.map_cons, hentries]⟩
      rw [List.mapM_cons, hm, hmaps]
      rfl
  obtain ⟨maps, hmaps, rfl⟩ := hmaps
  rw [jsonRows, hmaps]
  rfl

theorem exists_objects {columns : List Column} {rows : List Row}
    (h : ∀ row ∈ rows, Conforms columns row) :
    ∃ objects, List.Forall₂ (ObjectOf lib) rows objects := by
  induction rows with
  | nil => exact ⟨[], List.Forall₂.nil⟩
  | cons row rest ih =>
    rw [List.forall_mem_cons] at h
    obtain ⟨object, hobject⟩ := exists_objectOf lib h.1
    obtain ⟨objects, hobjects⟩ := ih h.2
    exact ⟨object :: objects, List.Forall₂.cons hobject hobjects⟩

/-- An object that is returned is the object of its row. -/
theorem of_returned {columns : List Column} {row : Row} {object : Json}
    (h : Returned (jsonRows lib) columns row object) :
    Conforms columns row ∧ ObjectOf lib row object := by
  obtain ⟨rows, objects, j, hrows, hresult, hrow, hobject⟩ := h
  obtain ⟨objects', hobjects⟩ := exists_objects lib hrows
  have heq : objects' = objects := by
    have hsame := (jsonRows_eq_ok lib hobjects).symm.trans hresult
    exact Json.arr.inj (Except.ok.inj hsame)
  subst heq
  exact ⟨hrows row (List.mem_of_getElem? hrow), forall₂_getElem? hobjects hrow hobject⟩

theorem returned_of {columns : List Column} {row : Row} {object : Json}
    (hrow : Conforms columns row) (h : ObjectOf lib row object) :
    Returned (jsonRows lib) columns row object := by
  refine ⟨[row], [object], 0, ?_, ?_, rfl, rfl⟩
  · simpa using hrow
  · exact jsonRows_eq_ok lib (List.Forall₂.cons h List.Forall₂.nil)

/-- Under distinct names each cell is the member of its name. -/
theorem get_of_objectOf {row : Row} {object : Json} (hnames : (row.map Prod.fst).Nodup)
    (h : ObjectOf lib row object) {cell : String × ColumnData} (hcell : cell ∈ row) :
    ∃ json, columnDataToJson lib cell.2 = .ok json ∧ object.get cell.1 = some json := by
  obtain ⟨rendered, hrendered, rfl⟩ := h
  have hkeys : keys rendered = row.map Prod.fst := by
    clear hcell hnames
    induction hrendered with
    | nil => rfl
    | cons hentry _ ih => rw [keys_cons, List.map_cons, hentry.1, ih]
  have hdistinct : DistinctKeys ([] ++ rendered) := by
    rw [List.nil_append, DistinctKeys, hkeys]
    exact hnames
  obtain ⟨i, hi⟩ := List.mem_iff_getElem?.mp hcell
  obtain ⟨hlt, -⟩ := List.getElem?_eq_some_iff.mp hi
  have hlt' : i < rendered.length := hrendered.length_eq ▸ hlt
  have hentry : rendered[i]? = some rendered[i] := List.getElem?_eq_getElem hlt'
  obtain ⟨hname, hjson⟩ := forall₂_getElem? hrendered hi hentry
  refine ⟨rendered[i].2, hjson, ?_⟩
  rw [extend_eq_append hdistinct, List.nil_append, Json.get_obj, ← hname]
  exact (lookup_eq_some_iff_mem hdistinct _ _).mpr (List.getElem_mem hlt')

theorem names_of_conforms {columns : List Column} {row : Row} (h : Conforms columns row) :
    row.map Prod.fst = columns.map Column.name := by
  induction h with
  | nil => rfl
  | cons hcell _ ih => rw [List.map_cons, List.map_cons, hcell.1, ih]

/-- The row of all columns at NULL. -/
def nullRow (columns : List Column) : Row := columns.map fun c => (c.name, c.type.cell none)

theorem nullRow_conforms (columns : List Column) : Conforms columns (nullRow columns) := by
  induction columns with
  | nil => exact List.Forall₂.nil
  | cons c rest ih => exact List.Forall₂.cons ⟨rfl, none, rfl, by simp⟩ ih

theorem nullRow_renders (columns : List Column) :
    List.Forall₂ (Renders lib) (nullRow columns) (columns.map fun c => (c.name, Json.null)) := by
  induction columns with
  | nil => exact List.Forall₂.nil
  | cons c rest ih => exact List.Forall₂.cons ⟨rfl, null_shown lib c.type⟩ ih

/-- Two rows that differ and add the same members to any object. -/
def Collide (columns : List Column) (row row' : Row) : Prop :=
  Conforms columns row ∧ Conforms columns row' ∧ Differ row row' ∧
    ∃ rendered rendered', List.Forall₂ (Renders lib) row rendered ∧
      List.Forall₂ (Renders lib) row' rendered' ∧
      ∀ m, AssocMap.extend m rendered = AssocMap.extend m rendered'

/-- The cell of a column is overwritten by a later column of its name. -/
theorem exists_collide_head {c : Column} {rest : List Column}
    (h : c.name ∈ rest.map Column.name) : ∃ row row', Collide lib (c :: rest) row row' := by
  obtain ⟨v, hrange, hfinite⟩ := exists_value c.type
  obtain ⟨json, hjson, hnull⟩ := value_shown lib c.type hrange hfinite
  have hvalue : Holds c.type (c.type.cell (some v)) := ⟨some v, rfl, by simpa using hrange⟩
  have hne : c.type.cell none ≠ c.type.cell (some v) := by
    intro heq
    have hshown := null_shown lib c.type
    rw [heq, hjson] at hshown
    exact hnull (Except.ok.inj hshown)
  refine ⟨nullRow (c :: rest), (c.name, c.type.cell (some v)) :: nullRow rest,
    nullRow_conforms (c :: rest), List.Forall₂.cons ⟨rfl, hvalue⟩ (nullRow_conforms rest),
    ⟨0, _, _, rfl, rfl, hne, null_isFinite c.type, hfinite⟩, _, _,
    nullRow_renders lib (c :: rest),
    List.Forall₂.cons (b := (c.name, json)) ⟨rfl, hjson⟩ (nullRow_renders lib rest), ?_⟩
  intro m
  refine extend_cons_of_mem m _ Json.null json ?_
  simpa [keys] using h

theorem Collide.cons {columns : List Column} {row row' : Row} (h : Collide lib columns row row')
    (c : Column) :
    Collide lib (c :: columns) ((c.name, c.type.cell none) :: row)
      ((c.name, c.type.cell none) :: row') := by
  obtain ⟨hrow, hrow', ⟨i, hdiffer⟩, rendered, rendered', hr, hr', hextend⟩ := h
  have hcell : c.name = c.name ∧ Holds c.type (c.type.cell none) := ⟨rfl, none, rfl, by simp⟩
  have hnull : Renders lib (c.name, c.type.cell none) (c.name, Json.null) :=
    ⟨rfl, null_shown lib c.type⟩
  refine ⟨List.Forall₂.cons hcell hrow, List.Forall₂.cons hcell hrow', ⟨i + 1, hdiffer⟩, _, _,
    List.Forall₂.cons hnull hr, List.Forall₂.cons hnull hr', ?_⟩
  intro m
  exact hextend (AssocMap.insert m c.name Json.null)

/-- A repeated name makes two rows collide. -/
theorem exists_collide {columns : List Column} (h : ¬ (columns.map Column.name).Nodup) :
    ∃ row row', Collide lib columns row row' := by
  induction columns with
  | nil => simp at h
  | cons c rest ih =>
    rw [List.map_cons, List.nodup_cons, not_and_or, not_not] at h
    rcases h with hrepeated | hrest
    · exact exists_collide_head lib hrepeated
    · obtain ⟨row, row', hcollide⟩ := ih hrest
      exact ⟨_, _, hcollide.cons lib c⟩

theorem not_losesNoCell_of_collide {columns : List Column} {row row' : Row}
    (h : Collide lib columns row row') : ¬ LosesNoCell (jsonRows lib) columns := by
  obtain ⟨hrow, hrow', hdiffer, rendered, rendered', hr, hr', hextend⟩ := h
  intro hkeeps
  have hobject := returned_of lib hrow ⟨rendered, hr, rfl⟩
  have hobject' := returned_of lib hrow' ⟨rendered', hr', rfl⟩
  rw [← hextend []] at hobject'
  obtain ⟨i, cell, cell', hcell, hcell', hne, hfinite, hfinite'⟩ := hdiffer
  have hi : i < columns.length := by
    rw [hrow.length_eq]
    exact (List.getElem?_eq_some_iff.mp hcell).1
  obtain ⟨decode, hdecode⟩ := hkeeps.recovered i hi
  apply hne
  rw [← hdecode row _ cell hobject hcell hfinite, hdecode row' _ cell' hobject' hcell' hfinite']

/-- Under distinct names the member of a column is the rendering of its cell. -/
theorem get_of_returned {columns : List Column} (h : (columns.map Column.name).Nodup)
    {row : Row} {object : Json} (hreturned : Returned (jsonRows lib) columns row object) {i : ℕ}
    {column : Column} {cell : String × ColumnData} (hcolumn : columns[i]? = some column)
    (hcell : row[i]? = some cell) :
    Holds column.type cell.2 ∧
      ∃ json, columnDataToJson lib cell.2 = .ok json ∧ object.get column.name = some json := by
  obtain ⟨hrow, hobject⟩ := of_returned lib hreturned
  obtain ⟨hname, hholds⟩ := forall₂_getElem? hrow hcolumn hcell
  have hnames : (row.map Prod.fst).Nodup := by rw [names_of_conforms hrow]; exact h
  have hget := get_of_objectOf lib hnames hobject (List.mem_of_getElem? hcell)
  rw [hname] at hget
  exact ⟨hholds, hget⟩

theorem exists_fields_of_rows {rows : List Row} {objects : List Json}
    (h : List.Forall₂ (ObjectOf lib) rows objects) :
    ∀ object ∈ objects, ∃ fields, object = .obj fields := by
  induction h with
  | nil => simp
  | cons hhead _ ih =>
    obtain ⟨rendered, _, heq⟩ := hhead
    exact List.forall_mem_cons.mpr ⟨⟨_, heq⟩, ih⟩

/-- Under distinct names each column has its own member to decode. -/
theorem exists_decoder (htexts : ExactText lib) {columns : List Column}
    (h : (columns.map Column.name).Nodup) {i : ℕ} {column : Column}
    (hcolumn : columns[i]? = some column) :
    ∃ decode : Json → ColumnData, ∀ row object cell,
      Returned (jsonRows lib) columns row object → row[i]? = some cell →
        ¬ IsNonFinite cell.2 → decode object = cell.2 := by
  let cells : Set ColumnData := {data | Holds column.type data ∧ ¬ IsNonFinite data}
  let render : ColumnData → Option Json := fun data => (columnDataToJson lib data).toOption
  have hrender : Set.InjOn render cells := by
    intro data hdata data' hdata' heq
    obtain ⟨json, hjson⟩ := cell_shown lib hdata.1
    obtain ⟨json', hjson'⟩ := cell_shown lib hdata'.1
    simp only [render, hjson, hjson', Except.toOption, Option.some.injEq] at heq
    apply cell_injOn htexts column.type hdata hdata'
    rw [hjson, hjson', heq]
  have : Nonempty ColumnData := ⟨.bit none⟩
  refine ⟨fun object => Function.invFunOn render cells (object.get column.name), ?_⟩
  intro row object cell hreturned hcell hfinite
  obtain ⟨hholds, json, hjson, hget⟩ := get_of_returned lib h hreturned hcolumn hcell
  have hrendered : object.get column.name = render cell.2 := by
    rw [hget]
    simp only [render, hjson, Except.toOption]
  beta_reduce
  rw [hrendered]
  exact hrender.leftInvOn_invFunOn ⟨hholds, hfinite⟩

/-- Under distinct names the objects of rows that differ in a column differ in
the member of its name. -/
theorem get_ne_of_differ (htexts : ExactText lib) {columns : List Column}
    (h : (columns.map Column.name).Nodup) {row row' : Row} {object object' : Json}
    (hreturned : Returned (jsonRows lib) columns row object)
    (hreturned' : Returned (jsonRows lib) columns row' object') (hdiffer : Differ row row') :
    ∃ name, object.get name ≠ object'.get name := by
  obtain ⟨i, cell, cell', hcell, hcell', hne, hfinite, hfinite'⟩ := hdiffer
  obtain ⟨hrow, -⟩ := of_returned lib hreturned
  have hi : i < columns.length := by
    rw [hrow.length_eq]
    exact (List.getElem?_eq_some_iff.mp hcell).1
  have hcolumn : columns[i]? = some columns[i] := List.getElem?_eq_getElem hi
  obtain ⟨hholds, json, hjson, hget⟩ := get_of_returned lib h hreturned hcolumn hcell
  obtain ⟨hholds', json', hjson', hget'⟩ := get_of_returned lib h hreturned' hcolumn hcell'
  refine ⟨columns[i].name, ?_⟩
  intro heq
  rw [hget, hget', Option.some.injEq] at heq
  apply hne
  apply cell_injOn htexts columns[i].type ⟨hholds, hfinite⟩ ⟨hholds', hfinite'⟩
  rw [hjson, hjson', heq]

theorem losesNoCell_of_nodup (htexts : ExactText lib) {columns : List Column}
    (h : (columns.map Column.name).Nodup) : LosesNoCell (jsonRows lib) columns := by
  constructor
  · intro rows hrows
    obtain ⟨objects, hobjects⟩ := exists_objects lib hrows
    exact ⟨objects, jsonRows_eq_ok lib hobjects, hobjects.length_eq.symm,
      exists_fields_of_rows lib hobjects⟩
  · intro i hi
    exact exists_decoder lib htexts h (List.getElem?_eq_getElem hi)
  · intro row row' object object' hreturned hreturned' hdiffer
    exact get_ne_of_differ lib htexts h hreturned hreturned' hdiffer

end Objects

def nvarcharParam (ordinal : JsonInt) : Json :=
  .obj [("x-sql-type", .str "nvarchar(max)"), ("x-sql-ordinal", .num (.int ordinal))]

theorem firstOrdinal_lower : (-2 ^ 63 : ℤ) ≤ 1 := by decide

theorem firstOrdinal_upper : (1 : ℤ) < 2 ^ 64 := by decide

def executesqlSchema : Json :=
  .obj [("properties", .obj [("body", .obj [("properties", .obj
    [("stmt", nvarcharParam ⟨1, firstOrdinal_lower, firstOrdinal_upper⟩),
      ("params", nvarcharParam ⟨2, by decide, by decide⟩)])])])]

def executesqlEndpoint : EndpointRecord :=
  ⟨"sys_sp_executesql", "/sys/sp_executesql", some "EXTENDED_STORED_PROCEDURE"⟩

def executesqlSchemas (_ : String) (operationId : String) : Option (Json × Json) :=
  if operationId = "sys_sp_executesql" then some (executesqlSchema, .null) else none

def stmtBody (stmt : String) : Json := .obj [("body", .obj [("stmt", .str stmt)])]

theorem executesql_query_mem (stmt : String) :
    .query localPool "EXEC [sys].[sp_executesql] @stmt = @P1, @params = @P2"
        [.string (some stmt), .string none] ∈
      (execute numericLibraries executesqlSchemas writableConfig executesqlEndpoint
        (stmtBody stmt) (answering []) []).actions :=
  query_mem_of_actions_eq rfl

/-- For a call that runs its statement, the objects it returns lose no cell of
the result set exactly when no two columns have one name. -/
theorem losesNoCell_iff (lib : Libraries) (htexts : ExactText lib)
    (resolvedSchemasFor : String → String → Option (Json × Json)) (client : Config)
    (endpoint : EndpointRecord) (args : Json) (answers : Answers) (pools : Pools) {pool : Pool}
    {sql : String} {bound : List BoundParam}
    (hquery : .query pool sql bound ∈
      (execute lib resolvedSchemasFor client endpoint args answers pools).actions)
    (columns : List Column) :
    LosesNoCell (fun rows => (execute lib resolvedSchemasFor client endpoint args
      { answers with firstResult := .ok rows } pools).result) columns ↔
        (columns.map Column.name).Nodup := by
  have hresult : (fun rows => (execute lib resolvedSchemasFor client endpoint args
      { answers with firstResult := .ok rows } pools).result) = jsonRows lib := by
    funext rows
    exact result_of_query_mem lib resolvedSchemasFor hquery rows
  rw [hresult]
  constructor
  · intro hkeeps
    by_contra hrepeated
    obtain ⟨row, row', hcollide⟩ := exists_collide lib hrepeated
    exact not_losesNoCell_of_collide lib hcollide hkeeps
  · exact losesNoCell_of_nodup lib htexts

theorem distinct_names_kept :
    LosesNoCell (fun rows => (execute numericLibraries executesqlSchemas writableConfig
      executesqlEndpoint (stmtBody "SELECT 1 AS n, 'a' AS s")
      { answering [] with firstResult := .ok rows } []).result) [⟨"n", .i32⟩, ⟨"s", .string⟩] :=
  (losesNoCell_iff numericLibraries numericLibraries_exact executesqlSchemas writableConfig
    executesqlEndpoint (stmtBody "SELECT 1 AS n, 'a' AS s") (answering []) []
    (executesql_query_mem "SELECT 1 AS n, 'a' AS s") [⟨"n", .i32⟩, ⟨"s", .string⟩]).mpr (by decide)

/-- Of two columns named `n` only the second one is returned. -/
theorem repeated_name_lost :
    ¬ LosesNoCell (fun rows => (execute numericLibraries executesqlSchemas writableConfig
      executesqlEndpoint (stmtBody "SELECT 1 AS n, 2 AS n UNION ALL SELECT 3, 2")
      { answering [] with firstResult := .ok rows } []).result) [⟨"n", .i32⟩, ⟨"n", .i32⟩] := by
  let cell (i : ℤ) (hlo : -2 ^ 31 ≤ i) (hhi : i < 2 ^ 31) : ColumnData := .i32 (some ⟨i, hlo, hhi⟩)
  let one := cell 1 (by norm_num) (by norm_num)
  let two := cell 2 (by norm_num) (by norm_num)
  let three := cell 3 (by norm_num) (by norm_num)
  let object : Json := .obj [("n", .num (.int ⟨2, by norm_num, by norm_num⟩))]
  have hholds : ∀ i hlo hhi, Holds .i32 (cell i hlo hhi) := fun i hlo hhi =>
    ⟨some ⟨i, hlo, hhi⟩, rfl, fun _ _ => trivial⟩
  have hconforms : ∀ i hlo hhi, Conforms [⟨"n", .i32⟩, ⟨"n", .i32⟩]
      [("n", cell i hlo hhi), ("n", two)] := fun i hlo hhi =>
    List.Forall₂.cons ⟨rfl, hholds i hlo hhi⟩
      (List.Forall₂.cons ⟨rfl, hholds 2 _ _⟩ List.Forall₂.nil)
  have hrows : ∀ row ∈ [[("n", one), ("n", two)], [("n", three), ("n", two)]],
      Conforms [⟨"n", .i32⟩, ⟨"n", .i32⟩] row := by
    intro row hrow
    rcases List.mem_pair.mp hrow with rfl | rfl
    · exact hconforms 1 _ _
    · exact hconforms 3 _ _
  intro hkeeps
  obtain ⟨decode, hdecode⟩ := hkeeps.recovered 0 (by decide)
  have hone : decode object = one :=
    hdecode _ object ("n", one) ⟨_, [object, object], 0, hrows, rfl, rfl, rfl⟩ rfl id
  have hthree : decode object = three :=
    hdecode _ object ("n", three) ⟨_, [object, object], 1, hrows, rfl, rfl, rfl⟩ rfl id
  have hsame : one = three := hone.symm.trans hthree
  have hvalue := congrArg RangedInt.val (Option.some.inj (ColumnData.i32.inj hsame))
  exact absurd hvalue (by decide)

end SqlServerMcp.RowObjects
