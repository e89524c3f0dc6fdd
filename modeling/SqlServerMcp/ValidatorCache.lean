import SqlServerMcp.Runs
import SqlServerMcp.Text
import SqlServerMcp.Validator

/-!
The caches of validation in one process. A call looks its schema up in one
critical section and validates in a second one; the sections of other calls come
in between. Two operations of one key have one schema, so no call can tell that
there is a cache.
-/
namespace SqlServerMcp.ValidatorCache

open AssocMap ConfigSchema JsonValue KeyedCache Runs Text Validator

structure OperationSchemas where
  inputSchema : Json
  outputSchema : Json

abbrev Schemas := Map String OperationSchemas

/-- The compressed schemas that are built into the program. -/
structure Assets where
  v2025 : List UInt8
  v2022 : List UInt8
  v2019 : List UInt8
  v2017 : List UInt8

def schemasZstFor (assets : Assets) (apiVersion : String) : Option (List UInt8) :=
  match apiVersion with
  | "2025" => some assets.v2025
  | "2022" => some assets.v2022
  | "2019" => some assets.v2019
  | "2017" => some assets.v2017
  | _ => none

inductive Direction where
  | input
  | output
  deriving DecidableEq

namespace Direction

def schemaOf (schemas : OperationSchemas) : Direction → Json
  | .input => schemas.inputSchema
  | .output => schemas.outputSchema

def message (operationId : String) : Direction → String
  | .input => "invalid input for '" ++ operationId ++ "'"
  | .output => "unexpected response shape for '" ++ operationId ++ "'"

end Direction

structure Call where
  direction : Direction
  apiVersion : String
  operationId : String
  data : Json

abbrev Verdict := Except McpifyError Unit

/-- The caches, the calls between their two sections with the schema that each has
looked up, and the verdicts so far. -/
structure Process where
  schemas : Entries String Schemas
  validators : Direction → Validators
  resolved : List (Call × Json)
  verdicts : List (Call × Verdict)

def Process.initial : Process := ⟨[], fun _ => [], [], []⟩

inductive Event where
  | resolve (call : Call)
  | validate (place : ℕ)

section Calls

-- Decompression and parsing of an asset.
variable (compiler : SchemaCompiler) (assets : Assets) (decode : List UInt8 → Option Schemas)

def parsed (compressed : List UInt8) : Schemas := (decode compressed).getD Map.empty

def schemasByOperation (cache : Entries String Schemas) (apiVersion : String) :
    Entries String Schemas × Schemas :=
  match cache.lookup apiVersion with
  | some schemas => (cache, schemas)
  | none =>
    match schemasZstFor assets apiVersion with
    | none => (cache, Map.empty)
    | some compressed =>
      (insert cache apiVersion (parsed decode compressed), parsed decode compressed)

def schemaOrEmpty (schemas : Schemas) (direction : Direction) (operationId : String) : Json :=
  match schemas.get operationId with
  | some found => direction.schemaOf found
  | none => .obj []

def verdictOf (call : Call) (result : Except (List String) Unit) : Verdict :=
  match result with
  | .ok () => .ok ()
  | .error errors => .error (.validation (call.direction.message call.operationId) errors)

def step (p : Process) : Event → Option Process
  | .resolve call =>
    let looked := schemasByOperation assets decode p.schemas call.apiVersion
    some { p with
      schemas := looked.1
      resolved := (call, schemaOrEmpty looked.2 call.direction call.operationId) :: p.resolved }
  | .validate place => do
    let (call, schema) ← p.resolved[place]?
    let checked := validateAgainst compiler (p.validators call.direction)
      (cacheKey call.apiVersion call.operationId) schema call.data
    return { p with
      validators := Function.update p.validators call.direction checked.2
      resolved := p.resolved.eraseIdx place
      verdicts := (call, verdictOf call checked.1) :: p.verdicts }

/-- The schemas that the program has for a version. -/
def registered (apiVersion : String) : Schemas :=
  match schemasZstFor assets apiVersion with
  | none => Map.empty
  | some compressed => parsed decode compressed

def ownSchema (direction : Direction) (apiVersion operationId : String) : Json :=
  schemaOrEmpty (registered assets decode apiVersion) direction operationId

/-- The verdict of a validator that is compiled for this call alone. -/
def freshVerdict (call : Call) : Verdict :=
  let validator := compiler.compile
    (ownSchema assets decode call.direction call.apiVersion call.operationId)
  if validator.isValid call.data then .ok ()
  else .error (.validation (call.direction.message call.operationId) (validator.errors call.data))

/-- Every verdict so far is that of a validator which is compiled for its call alone. -/
def VerdictsFresh (p : Process) : Prop :=
  ∀ call verdict, (call, verdict) ∈ p.verdicts →
    verdict = freshVerdict compiler assets decode call

/-- No operation id of the embedded schemas contains a space. -/
def PlainIds : Prop :=
  ∀ apiVersion operationId schemas,
    (registered assets decode apiVersion).get operationId = some schemas →
      ' ' ∉ operationId.toList

variable {assets decode}

theorem space_notMem_of_known {apiVersion : String} {compressed : List UInt8}
    (h : schemasZstFor assets apiVersion = some compressed) : ' ' ∉ apiVersion.toList := by
  unfold schemasZstFor at h
  split at h
  all_goals first | contradiction | simp

theorem registered_of_space {apiVersion : String} (h : ' ' ∈ apiVersion.toList) :
    registered assets decode apiVersion = Map.empty := by
  unfold registered
  cases hknown : schemasZstFor assets apiVersion with
  | none => rfl
  | some compressed => exact absurd h (space_notMem_of_known hknown)

theorem ownSchema_of_version_space {apiVersion : String} (h : ' ' ∈ apiVersion.toList)
    (direction : Direction) (operationId : String) :
    ownSchema assets decode direction apiVersion operationId = .obj [] := by
  rw [ownSchema, registered_of_space h, schemaOrEmpty, Map.get_empty]

theorem ownSchema_of_id_space (hplain : PlainIds assets decode) {operationId : String}
    (h : ' ' ∈ operationId.toList) (direction : Direction) (apiVersion : String) :
    ownSchema assets decode direction apiVersion operationId = .obj [] := by
  unfold ownSchema schemaOrEmpty
  cases hget : (registered assets decode apiVersion).get operationId with
  | none => rfl
  | some schemas => exact absurd h (hplain apiVersion operationId schemas hget)

theorem space_mem_join (before after : String) : ' ' ∈ (before ++ " " ++ after).toList := by
  rw [String.toList_append, String.toList_append]
  exact List.mem_append_left _ (List.mem_append_right _ List.mem_cons_self)

/-- Where a part of an id moves over to the version, neither pair is known. -/
theorem ownSchema_of_moved (hplain : PlainIds assets decode) (direction : Direction)
    (apiVersion operationId part : String) :
    ownSchema assets decode direction apiVersion (part ++ " " ++ operationId) =
      ownSchema assets decode direction (apiVersion ++ " " ++ part) operationId := by
  rw [ownSchema_of_id_space hplain (space_mem_join part operationId),
    ownSchema_of_version_space (space_mem_join apiVersion part)]

/-- Pairs of one key have one schema. -/
theorem ownSchema_of_cacheKey (hplain : PlainIds assets decode) (direction : Direction)
    {apiVersion apiVersion' operationId operationId' : String}
    (h : cacheKey apiVersion operationId = cacheKey apiVersion' operationId') :
    ownSchema assets decode direction apiVersion operationId =
      ownSchema assets decode direction apiVersion' operationId' := by
  obtain ⟨rfl, rfl⟩ | ⟨part, rfl, rfl⟩ | ⟨part, rfl, rfl⟩ :=
    (append_sep_string_eq_iff rfl apiVersion apiVersion' operationId operationId').mp h
  · rfl
  · exact ownSchema_of_moved hplain direction apiVersion operationId' part
  · exact (ownSchema_of_moved hplain direction apiVersion' operationId part).symm

variable (assets decode)

/-- The validator that is built for a version and an operation. -/
def ownValidator (direction : Direction) (pair : String × String) : CompiledSchema :=
  compiler.compile (ownSchema assets decode direction pair.1 pair.2)

/-- No cache shows: each holds what every call of a key would build, each call
that has looked its schema up has its own, and each verdict is a fresh one. -/
structure Unobserved (p : Process) : Prop where
  schemas : ∀ apiVersion found, p.schemas.lookup apiVersion = some found →
    found = registered assets decode apiVersion
  validators : ∀ direction, Transparent (fun pair : String × String => cacheKey pair.1 pair.2)
    (ownValidator compiler assets decode direction) (p.validators direction)
  resolved : ∀ e ∈ p.resolved,
    e.2 = ownSchema assets decode e.1.direction e.1.apiVersion e.1.operationId
  verdicts : ∀ e ∈ p.verdicts, e.2 = freshVerdict compiler assets decode e.1

theorem unobserved_initial : Unobserved compiler assets decode Process.initial where
  schemas _ _ h := by contradiction
  validators _ := transparent_nil
  resolved _ h := by contradiction
  verdicts _ h := by contradiction

variable {assets decode}

/-- The schemas of a version are those of the program, from the cache or not. -/
theorem schemasByOperation_spec {cache : Entries String Schemas}
    (h : ∀ apiVersion found, cache.lookup apiVersion = some found →
      found = registered assets decode apiVersion) (apiVersion : String) :
    (schemasByOperation assets decode cache apiVersion).2 = registered assets decode apiVersion ∧
      ∀ other found, (schemasByOperation assets decode cache apiVersion).1.lookup other =
        some found → found = registered assets decode other := by
  unfold schemasByOperation
  cases hlookup : cache.lookup apiVersion with
  | some schemas => exact ⟨h apiVersion schemas hlookup, h⟩
  | none =>
    cases hasset : schemasZstFor assets apiVersion with
    | none =>
      refine ⟨?_, h⟩
      rw [registered, hasset]
    | some compressed =>
      have hregistered : registered assets decode apiVersion = parsed decode compressed := by
        rw [registered, hasset]
      refine ⟨hregistered.symm, ?_⟩
      intro other found hfound
      rw [lookup_insert] at hfound
      split at hfound
      · rename_i hsame
        rw [hsame, hregistered]
        exact (Option.some.inj hfound).symm
      · exact h other found hfound

variable {compiler}

/-- A validation against a transparent cache gives the fresh verdict. -/
theorem validateAgainst_spec (hplain : PlainIds assets decode) {cache : Validators} (call : Call)
    (h : Transparent (fun pair : String × String => cacheKey pair.1 pair.2)
      (ownValidator compiler assets decode call.direction) cache) :
    let checked := validateAgainst compiler cache (cacheKey call.apiVersion call.operationId)
      (ownSchema assets decode call.direction call.apiVersion call.operationId) call.data
    verdictOf call checked.1 = freshVerdict compiler assets decode call ∧
      Transparent (fun pair : String × String => cacheKey pair.1 pair.2)
        (ownValidator compiler assets decode call.direction) checked.2 := by
  have hkey : ∀ pair : String × String,
      cacheKey pair.1 pair.2 = cacheKey call.apiVersion call.operationId →
        ownValidator compiler assets decode call.direction pair =
          ownValidator compiler assets decode call.direction
            (call.apiVersion, call.operationId) := by
    intro pair hpair
    rw [ownValidator, ownSchema_of_cacheKey hplain call.direction hpair, ownValidator]
  obtain ⟨hused, hcache⟩ := h.orInsert (c := (call.apiVersion, call.operationId)) hkey
  unfold validateAgainst freshVerdict
  simp only [ownValidator] at hused hcache
  simp only [hused]
  split
  · exact ⟨rfl, hcache⟩
  · exact ⟨rfl, hcache⟩

theorem Unobserved.step (hplain : PlainIds assets decode) {p q : Process} {event : Event}
    (h : Unobserved compiler assets decode p)
    (hstep : step compiler assets decode p event = some q) :
    Unobserved compiler assets decode q := by
  cases event with
  | resolve call =>
    obtain ⟨hlooked, hcache⟩ := schemasByOperation_spec h.schemas call.apiVersion
    rw [← Option.some.inj hstep]
    refine ⟨hcache, h.validators, ?_, h.verdicts⟩
    intro e he
    rcases List.mem_cons.mp he with rfl | hold
    · simp only [hlooked, ownSchema]
    · exact h.resolved e hold
  | validate place =>
    obtain ⟨⟨call, schema⟩, hplace, hq⟩ := Option.bind_eq_some_iff.mp hstep
    have hschema := h.resolved (call, schema) (List.mem_of_getElem? hplace)
    simp only at hschema
    subst hschema
    obtain ⟨hverdict, hcache⟩ := validateAgainst_spec hplain call (h.validators call.direction)
    rw [← Option.some.inj hq]
    refine ⟨h.schemas, ?_, ?_, ?_⟩
    · intro direction
      by_cases hdirection : direction = call.direction
      · subst hdirection
        dsimp only
        rw [Function.update_self]
        exact hcache
      · dsimp only
        rw [Function.update_of_ne hdirection]
        exact h.validators direction
    · intro e he
      exact h.resolved e (List.mem_of_mem_eraseIdx he)
    · intro e he
      rcases List.mem_cons.mp he with rfl | hold
      · exact hverdict
      · exact h.verdicts e hold

/-- The two schemas of an operation, as the other calls of a process see them. -/
def resolvedSchemasFor (assets : Assets) (decode : List UInt8 → Option Schemas)
    (apiVersion operationId : String) : Option (Json × Json) :=
  ((registered assets decode apiVersion).get operationId).map fun schemas =>
    (schemas.inputSchema, schemas.outputSchema)

theorem inputSchemaOrEmpty_eq (apiVersion operationId : String) :
    inputSchemaOrEmpty (resolvedSchemasFor assets decode) apiVersion operationId =
      ownSchema assets decode .input apiVersion operationId := by
  unfold inputSchemaOrEmpty resolvedSchemasFor ownSchema schemaOrEmpty
  cases (registered assets decode apiVersion).get operationId with
  | none => rfl
  | some schemas => rfl

theorem outputSchemaOrEmpty_eq (apiVersion operationId : String) :
    outputSchemaOrEmpty (resolvedSchemasFor assets decode) apiVersion operationId =
      ownSchema assets decode .output apiVersion operationId := by
  unfold outputSchemaOrEmpty resolvedSchemasFor ownSchema schemaOrEmpty
  cases (registered assets decode apiVersion).get operationId with
  | none => rfl
  | some schemas => rfl

/-- The functions that the server calls give the fresh verdict as well. -/
theorem validateInput_fresh (hplain : PlainIds assets decode) {cache : Validators}
    (h : Transparent (fun pair : String × String => cacheKey pair.1 pair.2)
      (ownValidator compiler assets decode .input) cache)
    (apiVersion operationId : String) (data : Json) :
    (validateInput compiler (resolvedSchemasFor assets decode) cache apiVersion operationId
      data).1 = freshVerdict compiler assets decode ⟨.input, apiVersion, operationId, data⟩ := by
  obtain ⟨hverdict, -⟩ := validateAgainst_spec hplain ⟨.input, apiVersion, operationId, data⟩ h
  rw [← hverdict, validateInput, inputSchemaOrEmpty_eq]
  rcases validateAgainst compiler cache (cacheKey apiVersion operationId)
    (ownSchema assets decode .input apiVersion operationId) data with ⟨errors | _, _⟩ <;> rfl

theorem validateOutput_fresh (hplain : PlainIds assets decode) {cache : Validators}
    (h : Transparent (fun pair : String × String => cacheKey pair.1 pair.2)
      (ownValidator compiler assets decode .output) cache)
    (apiVersion operationId : String) (data : Json) :
    (validateOutput compiler (resolvedSchemasFor assets decode) cache apiVersion operationId
      data).1 = freshVerdict compiler assets decode ⟨.output, apiVersion, operationId, data⟩ := by
  obtain ⟨hverdict, -⟩ := validateAgainst_spec hplain ⟨.output, apiVersion, operationId, data⟩ h
  rw [← hverdict, validateOutput, outputSchemaOrEmpty_eq]
  rcases validateAgainst compiler cache (cacheKey apiVersion operationId)
    (ownSchema assets decode .output apiVersion operationId) data with ⟨errors | _, _⟩ <;> rfl

/-- Whatever calls came before and in between, no verdict shows a cache. -/
theorem verdicts_fresh (hplain : PlainIds assets decode) (events : List Event) {p : Process}
    (h : run (step compiler assets decode) Process.initial events = some p) :
    VerdictsFresh compiler assets decode p := by
  have hunobserved : Unobserved compiler assets decode p := by
    refine invariant_of_reached ?_ (unobserved_initial compiler assets decode) (reached_last h)
    intro before event after hbefore hstep
    exact hbefore.step hplain hstep
  intro call verdict hmem
  exact hunobserved.verdicts (call, verdict) hmem

end Calls

/-- A validator of the keyword for the type of an object. -/
def objectValidator (schema : Json) : CompiledSchema where
  isValid value := (schema.get "type").bind Json.asStr ≠ some "object" ∨ value.asObject.isSome
  errors _ := ["value is not of type \"object\""]

def objectCompiler : SchemaCompiler where
  validatorFor schema := some (objectValidator schema)
  emptyValidator := objectValidator (.obj [])
  validatorFor_empty := rfl

def sampleAssets : Assets := ⟨[25], [22], [19], [17]⟩

/-- One asset has one operation and the others cannot be read. -/
def sampleDecode (compressed : List UInt8) : Option Schemas :=
  if compressed = [25] then
    some (Map.empty.insert "sys_sp_who" ⟨.obj [("type", .str "object")], .obj []⟩)
  else none

theorem plainIds_sample : PlainIds sampleAssets sampleDecode := by
  intro apiVersion operationId schemas h
  unfold registered parsed sampleDecode at h
  split at h
  · contradiction
  · split at h
    · rw [Option.getD_some, Map.get_insert] at h
      split at h
      · rename_i hid
        rw [hid]
        simp
      · contradiction
    · contradiction

/-- Two calls of one key, and a third that sends no object. -/
def sampleEvents : List Event :=
  [.resolve ⟨.input, "2025 sys", "sp_who", .null⟩, .resolve ⟨.input, "2025", "sys sp_who", .null⟩,
    .resolve ⟨.input, "2025", "sys_sp_who", .null⟩, .validate 0, .validate 1, .validate 0]

def sampleProcess : Process :=
  (run (step objectCompiler sampleAssets sampleDecode) Process.initial sampleEvents).getD
    Process.initial

theorem verdicts_fresh_sample :
    VerdictsFresh objectCompiler sampleAssets sampleDecode sampleProcess :=
  verdicts_fresh plainIds_sample sampleEvents rfl

end SqlServerMcp.ValidatorCache
