import SqlServerMcp.CallTool
import SqlServerMcp.JsonTexts
import SqlServerMcp.RowObjects
import SqlServerMcp.ToolCalls

/-!
What a client gets of a tool call. The value that a call returns is sent as the
indented text of its JSON, an error as its message. A client that reads the text
has the value again, and with it the cells of the rows that SQL Server sent.
-/
namespace SqlServerMcp.ToolTexts

open ApiClient AssocMap CallTool ColumnTypes ConfigSchema JsonTexts JsonValue Results RowObjects
  SqlPool SqlType SqlValue Validator

inductive ContentBlock where
  | text (text : String)

structure CallToolResult where
  content : List ContentBlock
  isError : Bool

section Sending

-- The message of a configuration error comes from the deserializer.
variable (causeText : DeError → String) (floatText : UInt64 → String)

def formatValidationDetails : List String → String
  | [] => ""
  | errors => ": " ++ "; ".intercalate errors

def displayError : McpifyError → String
  | .configuration cause => causeText cause
  | .validation message details => message ++ formatValidationDetails details

/-- The message of an error; a panic ends the task without one. -/
def errorText : CallError → Option String
  | .mcpify err => some (displayError causeText err)
  | .fault (.error message) => some message
  | .fault (.panic _) => none

def toStringPretty (value : Json) : String := String.ofList (render floatText pretty 0 value)

def runTool (outcome : Except CallError Json) : Option CallToolResult :=
  match outcome with
  | .ok value => some ⟨[.text (toStringPretty floatText value)], false⟩
  | .error err => (errorText causeText err).map fun text => ⟨[.text text], true⟩

end Sending

section Receiving

variable (readFloat : List Char → Option UInt64)

/-- What a client takes from a result: the message of a failure, or the value. -/
def readResult (result : CallToolResult) : Option (Except String Json) :=
  match result.content, result.isError with
  | [.text message], true => some (.error message)
  | [.text text], false => (read readFloat text.toList).map .ok
  | _, _ => none

end Receiving

def IsFinite (bits : UInt64) : Prop := (Float.ofBits bits).isFinite = true

section Finite

/-! Only finite numbers are sent. -/

variable (lib : Libraries)

theorem f64ToJson_finite (bits : UInt64) : FloatsIn IsFinite (f64ToJson bits) := by
  by_cases h : (Float.ofBits bits).isFinite = true
  · rw [f64ToJson, if_pos h]
    exact h
  · rw [f64ToJson, if_neg h]
    trivial

theorem orNull_finite {A : Type} {show_ : A → Json} (h : ∀ a, FloatsIn IsFinite (show_ a)) :
    ∀ v : Option A, FloatsIn IsFinite (orNull show_ v)
  | some a => h a
  | none => trivial

theorem bind_text_finite {A : Type} {x : Except Fault A} {f : A → String} {json : Json}
    (h : (x >>= fun a => Except.ok (Json.str (f a))) = .ok json) : FloatsIn IsFinite json := by
  obtain ⟨a, -, heq⟩ := (bind_eq_ok _ _ _).mp h
  rw [← Except.ok.inj heq]
  trivial

theorem temporalToJson_finite {data : ColumnData} {json : Json}
    (h : temporalToJson lib data = .ok json) : FloatsIn IsFinite json := by
  unfold temporalToJson at h
  split at h
  · exact bind_text_finite h
  · exact bind_text_finite h
  · exact bind_text_finite h
  · exact bind_text_finite h
  · exact bind_text_finite h
  · obtain ⟨naive, -, hoffset⟩ := (bind_eq_ok _ _ _).mp h
    exact bind_text_finite hoffset
  · rw [← Except.ok.inj h]
    trivial

theorem columnDataToJson_finite {data : ColumnData} {json : Json}
    (h : columnDataToJson lib data = .ok json) : FloatsIn IsFinite json := by
  unfold columnDataToJson at h
  split at h
  case h_13 => exact temporalToJson_finite lib h
  all_goals
    rw [← Except.ok.inj h]
    refine orNull_finite (fun a => ?_) _
  case h_5 => exact f64ToJson_finite (FloatBits.widen a)
  case h_6 => exact f64ToJson_finite a
  all_goals trivial

theorem fieldsIn_insert {S : UInt64 → Prop} {fields : Fields} (h : FieldsIn S fields)
    {key : String} {value : Json} (hvalue : FloatsIn S value) :
    FieldsIn S (AssocMap.insert fields key value) := by
  induction fields with
  | nil => exact ⟨hvalue, trivial⟩
  | cons e rest ih =>
    obtain ⟨key', value'⟩ := e
    rw [AssocMap.insert]
    split
    · exact ⟨hvalue, h.2⟩
    · exact ⟨h.1, ih h.2⟩

theorem rowObject_finite {row : Row} {obj : JsonMap} (h : rowObject lib row = .ok obj) :
    FieldsIn IsFinite obj.entries := by
  -- The object has finite numbers after every cell.
  have hloop : ∀ (cells : Row) (start : JsonMap), FieldsIn IsFinite start.entries →
      (cells.foldlM (fun obj cell => do
        let value ← columnDataToJson lib cell.2
        .ok (obj.insert cell.1 value)) start) = .ok obj → FieldsIn IsFinite obj.entries := by
    intro cells
    induction cells with
    | nil =>
      intro start hstart hdone
      rw [← Except.ok.inj hdone]
      exact hstart
    | cons cell rest ih =>
      intro start hstart hdone
      rw [List.foldlM_cons, bind_eq_ok] at hdone
      obtain ⟨next, hnext, hrest⟩ := hdone
      obtain ⟨value, hvalue, heq⟩ := (bind_eq_ok _ _ _).mp hnext
      obtain rfl := Except.ok.inj heq
      exact ih _ (fieldsIn_insert hstart (columnDataToJson_finite lib hvalue)) hrest
  exact hloop row Map.empty trivial h

theorem jsonRows_finite {rows : List Row} {response : Json} (h : jsonRows lib rows = .ok response) :
    FloatsIn IsFinite response := by
  obtain ⟨objects, hobjects, heq⟩ := (bind_eq_ok _ _ _).mp h
  have hrows := (mapM_eq_ok_iff _ _ _).mp hobjects
  rw [← Except.ok.inj heq]
  show ItemsIn IsFinite (objects.map fun obj => .obj obj.entries)
  clear hobjects heq h
  induction hrows with
  | nil => trivial
  | cons hrow _ ih => exact ⟨rowObject_finite lib hrow, ih⟩

variable (resolvedSchemasFor : String → String → Option (Json × Json))

theorem execute_finite {client : Config} {endpoint : EndpointRecord} {args : Json}
    {answers : Answers} {pools : Pools} {response : Json}
    (h : (execute lib resolvedSchemasFor client endpoint args answers pools).result =
      .ok response) : FloatsIn IsFinite response := by
  unfold execute at h
  split at h
  · contradiction
  · split at h
    · contradiction
    · split at h
      · contradiction
      · split at h
        · contradiction
        · simp only [] at h
          split at h
          · contradiction
          · exact jsonRows_finite lib h

variable {compiler : SchemaCompiler} {config : Config} {resolvedSchemasFor}

theorem callOperation_finite {process : Process} {call : CallRequest} {response : Json}
    (h : (callOperation compiler lib resolvedSchemasFor config process call).result =
      .ok response) : FloatsIn IsFinite response := by
  unfold callOperation at h
  split at h
  · contradiction
  · simp only [] at h
    split at h
    · contradiction
    · rename_i hresponse
      rw [← Except.ok.inj h]
      exact execute_finite lib resolvedSchemasFor hresponse

/-- A call that runs its statement ends with the objects of the rows it gets. -/
theorem callOperation_rows {process : Process} {call : CallRequest} {pool : Pool} {sql : String}
    {bound : List BoundParam} (hquery : .query pool sql bound ∈
      (callOperation compiler lib resolvedSchemasFor config process call).actions)
    {rows : List Row} {response : Json} (hrows : jsonRows lib rows = .ok response) :
    (callOperation compiler lib resolvedSchemasFor config process
      { call with answers := { call.answers with firstResult := .ok rows } }).result =
        .ok response := by
  have hexecute := result_of_query_mem lib resolvedSchemasFor (action_mem_execute lib hquery) rows
  unfold callOperation at hquery ⊢
  split at hquery
  · contradiction
  · rename_i heq
    simp only [heq, hexecute, hrows]

end Finite

section RoundTrip

variable {compiler : SchemaCompiler} {lib : Libraries} {config : Config}
  {resolvedSchemasFor : String → String → Option (Json × Json)}
  {readFloat : List Char → Option UInt64}

/-- A client has what the call ended with, unless the call ended in a panic. -/
theorem runTool_read_back (causeText : DeError → String)
    (hfloats : ∀ bits, IsFinite bits → FloatTexts lib.formatF64 readFloat bits)
    (outcome : Except CallError Json)
    (hfinite : ∀ response, outcome = .ok response → FloatsIn IsFinite response) :
    (runTool causeText lib.formatF64 outcome).bind (readResult readFloat) =
      match outcome with
      | .ok response => some (.ok response)
      | .error err => (errorText causeText err).map .error := by
  cases outcome with
  | ok response =>
    have hreadable := FloatsIn.imp hfloats response (hfinite response rfl)
    simp only [runTool, Option.bind_some, readResult, toStringPretty, String.toList_ofList,
      read_render pretty 0 hreadable, Option.map_some]
  | error err =>
    simp only [runTool]
    cases errorText causeText err <;> rfl

/-- The text of a result has every cell of the rows, if the columns have
different names. -/
theorem cells_read_back (causeText : DeError → String) (htexts : ExactText lib)
    (hfloats : ∀ bits, IsFinite bits → FloatTexts lib.formatF64 readFloat bits)
    (process : Process) (call : CallRequest) (pool : Pool) (sql : String)
    (bound : List BoundParam) (hquery : .query pool sql bound ∈
      (callOperation compiler lib resolvedSchemasFor config process call).actions)
    (columns : List Column) (hnames : (columns.map Column.name).Nodup) :
    ∃ decode : ℕ → Json → ColumnData, ∀ rows, (∀ row ∈ rows, Conforms columns row) →
      ∃ result objects,
        runTool causeText lib.formatF64 (callOperation compiler lib resolvedSchemasFor config
          process { call with answers := { call.answers with firstResult := .ok rows } }).result =
            some result ∧
        readResult readFloat result = some (.ok (.arr objects)) ∧
        List.Forall₂ (fun row object => ∀ i cell, row[i]? = some cell → ¬ IsNonFinite cell.2 →
          decode i object = cell.2) rows objects := by
  have hdecoder : ∀ i : ℕ, ∃ decode : Json → ColumnData, ∀ (row : Row) (object : Json)
      (cell : String × ColumnData), Returned (jsonRows lib) columns row object →
        row[i]? = some cell → ¬ IsNonFinite cell.2 → decode object = cell.2 := by
    intro i
    by_cases hi : i < columns.length
    · exact (losesNoCell_of_nodup lib htexts hnames).recovered i hi
    · refine ⟨fun _ => .bit none, fun row object cell hreturned hcell _ => ?_⟩
      have hlength := (of_returned lib hreturned).1.length_eq
      obtain ⟨hlt, -⟩ := List.getElem?_eq_some_iff.mp hcell
      omega
  choose decode hdecode using hdecoder
  refine ⟨decode, fun rows hrows => ?_⟩
  obtain ⟨objects, hobjects⟩ := exists_objects lib hrows
  have hcall := callOperation_rows lib hquery (jsonRows_eq_ok lib hobjects)
  have hread := runTool_read_back causeText hfloats (.ok (.arr objects)) fun response heq =>
    Except.ok.inj heq ▸ callOperation_finite lib hcall
  rw [hcall]
  refine ⟨_, objects, rfl, hread, ?_⟩
  obtain ⟨hlength, hobject⟩ := List.forall₂_iff_zip.mp hobjects
  refine List.forall₂_iff_zip.mpr ⟨hlength, fun {row object} hmem i cell hcell hfinite => ?_⟩
  have hreturned := returned_of lib (hrows row (List.of_mem_zip hmem).1) (hobject hmem)
  exact hdecode i row object cell hreturned hcell hfinite

end RoundTrip

/-! A query of two columns, with numbers written as their bits and a fraction. -/

def pointText (bits : UInt64) : String := toString bits.toNat ++ ".0"

def readPoint (letters : List Char) : Option UInt64 :=
  some (UInt64.ofNat (Nat.ofDigitChars 10 (letters.take (letters.length - 2)) 0))

theorem pointText_toList (bits : UInt64) :
    (pointText bits).toList = Nat.toDigits 10 bits.toNat ++ ['.', '0'] := by
  rw [pointText, String.toList_append, Text.toString_nat_toList]
  rfl

theorem isNatural_of_mem {letters : List Char} (h : '.' ∈ letters) : isNatural letters = false := by
  cases letters with
  | nil => contradiction
  | cons c rest =>
    have hall : (c :: rest).all Char.isDigit = false :=
      List.all_eq_false.mpr ⟨'.', h, by decide⟩
    rw [isNatural, hall, Bool.false_and]

theorem isInteger_of_mem {letters : List Char} (h : '.' ∈ letters) : isInteger letters = false := by
  unfold isInteger
  split
  · rw [isNatural_of_mem ((List.mem_cons.mp h).resolve_left (by decide)), Bool.false_and]
  · exact isNatural_of_mem h

theorem pointText_readable (bits : UInt64) : FloatTexts pointText readPoint bits where
  read_back := by
    have hlength : (Nat.toDigits 10 bits.toNat ++ ['.', '0']).length - 2 =
        (Nat.toDigits 10 bits.toNat).length := by
      rw [List.length_append]
      rfl
    rw [readPoint, pointText_toList, hlength, List.take_left, Nat.ofDigitChars_ten_toDigits,
      UInt64.ofNat_toNat]
  not_integer := isInteger_of_mem (by simp [pointText_toList])
  letters := by
    intro c hc
    rw [pointText_toList] at hc
    rcases List.mem_append.mp hc with hdigit | hpoint
    · exact isWordChar_of_isDigit (Nat.isDigit_of_mem_toDigits (by decide) (by decide) hdigit)
    · rcases List.mem_pair.mp hpoint with rfl | rfl
      · exact isWordChar_of_notMem (by decide)
      · exact isWordChar_of_isDigit rfl
  first := by
    have hdigits : ∀ c ∈ Nat.toDigits 10 bits.toNat, c.isDigit = true :=
      fun c hc => Nat.isDigit_of_mem_toDigits (by decide) (by decide) hc
    have hne : Nat.toDigits 10 bits.toNat ≠ [] := Nat.toDigits_ne_nil
    obtain ⟨c, rest, heq⟩ := List.exists_cons_of_ne_nil hne
    refine ⟨c, rest ++ ['.', '0'], by rw [pointText_toList, heq, List.cons_append], .inr ?_⟩
    exact hdigits c (heq ▸ List.mem_cons_self)

def pointLibraries : Libraries := { numericLibraries with formatF64 := pointText }

theorem pointLibraries_exact : ExactText pointLibraries where
  uuidText := numericLibraries_exact.uuidText
  base64Encode := numericLibraries_exact.base64Encode
  formatDate := numericLibraries_exact.formatDate
  formatTime := numericLibraries_exact.formatTime
  formatDateTime := numericLibraries_exact.formatDateTime
  formatDateTimeSeconds := numericLibraries_exact.formatDateTimeSeconds
  toRfc3339 := numericLibraries_exact.toRfc3339


def executesqlCall : CallRequest :=
  ⟨executesqlEndpoint, "sys_sp_executesql", stmtBody "SELECT 1 AS n, 'a' AS s",
    StatementForms.answering []⟩

theorem executesql_called_mem :
    .query StatementForms.localPool "EXEC [sys].[sp_executesql] @stmt = @P1, @params = @P2"
        [.string (some "SELECT 1 AS n, 'a' AS s"), .string none] ∈
      (callOperation ToolCalls.acceptingCompiler pointLibraries executesqlSchemas
        StatementForms.writableConfig Process.initial executesqlCall).actions :=
  query_mem_of_actions_eq rfl

theorem cells_read_back_executesql :
    ∃ decode : ℕ → Json → ColumnData, ∀ rows,
      (∀ row ∈ rows, Conforms [⟨"n", .i32⟩, ⟨"s", .string⟩] row) →
      ∃ result objects,
        runTool (fun _ => "") pointLibraries.formatF64 (callOperation ToolCalls.acceptingCompiler
          pointLibraries executesqlSchemas StatementForms.writableConfig Process.initial
          { executesqlCall with
            answers := { executesqlCall.answers with firstResult := .ok rows } }).result =
            some result ∧
        readResult readPoint result = some (.ok (.arr objects)) ∧
        List.Forall₂ (fun row object => ∀ i cell, row[i]? = some cell → ¬ IsNonFinite cell.2 →
          decode i object = cell.2) rows objects :=
  cells_read_back (fun _ => "") pointLibraries_exact (fun bits _ => pointText_readable bits)
    Process.initial executesqlCall _ _ _ executesql_called_mem [⟨"n", .i32⟩, ⟨"s", .string⟩]
    (by decide)

end SqlServerMcp.ToolTexts
