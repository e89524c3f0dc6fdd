import SqlServerMcp.ConfigSchema
import SqlServerMcp.JsonSchema
import SqlServerMcp.KeyedCache

/-!
Validation of a call's arguments and response against the schemas of its
operation. Validators are compiled once for each version and operation and kept
in two caches, which never serve anything but the compiled schema itself.
-/
namespace SqlServerMcp.Validator

open AssocMap ConfigSchema JsonSchema JsonValue KeyedCache

structure CompiledSchema where
  isValid : Json → Bool
  errors : Json → List String

/-- The schema compiler; the empty schema always compiles. -/
structure SchemaCompiler where
  validatorFor : Json → Option CompiledSchema
  emptyValidator : CompiledSchema
  validatorFor_empty : validatorFor (.obj []) = some emptyValidator

namespace SchemaCompiler

/-- A schema that does not compile counts as the empty one. -/
def compile (compiler : SchemaCompiler) (schema : Json) : CompiledSchema :=
  (compiler.validatorFor schema).getD compiler.emptyValidator

/-- The schema compiles, and what its validator accepts meets its keywords. -/
def Enforces (compiler : SchemaCompiler) (schema : Json) : Prop :=
  ∃ validator, compiler.validatorFor schema = some validator ∧
    ∀ value, validator.isValid value = true → Valid schema schema value

end SchemaCompiler

abbrev Validators := Entries String CompiledSchema

def cacheKey (apiVersion operationId : String) : String := apiVersion ++ " " ++ operationId

section Validate

variable (compiler : SchemaCompiler) (resolvedSchemasFor : String → String → Option (Json × Json))

def validateAgainst (cache : Validators) (key : String) (schema data : Json) :
    Except (List String) Unit × Validators :=
  let stored := orInsert cache key (compiler.compile schema)
  if stored.2.isValid data then (.ok (), stored.1)
  else (.error (stored.2.errors data), stored.1)

def inputSchemaOrEmpty (apiVersion operationId : String) : Json :=
  match resolvedSchemasFor apiVersion operationId with
  | some (inputSchema, _) => inputSchema
  | none => .obj []

def outputSchemaOrEmpty (apiVersion operationId : String) : Json :=
  match resolvedSchemasFor apiVersion operationId with
  | some (_, outputSchema) => outputSchema
  | none => .obj []

def validateInput (cache : Validators) (apiVersion operationId : String) (data : Json) :
    Except McpifyError Unit × Validators :=
  match validateAgainst compiler cache (cacheKey apiVersion operationId)
      (inputSchemaOrEmpty resolvedSchemasFor apiVersion operationId) data with
  | (.ok (), cache) => (.ok (), cache)
  | (.error errors, cache) =>
    (.error (.validation ("invalid input for '" ++ operationId ++ "'") errors), cache)

def validateOutput (cache : Validators) (apiVersion operationId : String) (data : Json) :
    Except McpifyError Unit × Validators :=
  match validateAgainst compiler cache (cacheKey apiVersion operationId)
      (outputSchemaOrEmpty resolvedSchemasFor apiVersion operationId) data with
  | (.ok (), cache) => (.ok (), cache)
  | (.error errors, cache) =>
    (.error (.validation ("unexpected response shape for '" ++ operationId ++ "'") errors), cache)

/-- Under one version, the cache holds the compiled schema of each operation. -/
def Fresh (apiVersion : String) (schemaOf : String → Json) (cache : Validators) : Prop :=
  ∀ operationId validator, cache.lookup (cacheKey apiVersion operationId) = some validator →
    validator = compiler.compile (schemaOf operationId)

theorem cacheKey_injective (apiVersion : String) : Function.Injective (cacheKey apiVersion) := by
  intro a b h
  have hchars := congrArg String.toList h
  simp only [cacheKey, String.toList_append] at hchars
  exact String.toList_injective (List.append_cancel_left hchars)

theorem fresh_nil (apiVersion : String) (schemaOf : String → Json) :
    Fresh compiler apiVersion schemaOf [] := by
  intro operationId validator h
  contradiction

variable {compiler}

/-- Whatever the cache holds, the validator used is the compiled schema. -/
theorem Fresh.orInsert {apiVersion : String} {schemaOf : String → Json} {cache : Validators}
    (h : Fresh compiler apiVersion schemaOf cache) (operationId : String) :
    (orInsert cache (cacheKey apiVersion operationId)
        (compiler.compile (schemaOf operationId))).2 = compiler.compile (schemaOf operationId) ∧
      Fresh compiler apiVersion schemaOf (orInsert cache (cacheKey apiVersion operationId)
        (compiler.compile (schemaOf operationId))).1 := by
  have htransparent : Transparent (cacheKey apiVersion)
      (fun operationId => compiler.compile (schemaOf operationId)) cache := h
  apply htransparent.orInsert
  intro operationId' hkey
  rw [cacheKey_injective apiVersion hkey]

/-- The verdict on the input is the compiled schema's, and the cache stays
fresh. -/
theorem validateInput_spec {apiVersion : String} {cache : Validators}
    (h : Fresh compiler apiVersion (inputSchemaOrEmpty resolvedSchemasFor apiVersion) cache)
    (operationId : String) (data : Json) :
    (((validateInput compiler resolvedSchemasFor cache apiVersion operationId data).1 = .ok () ↔
      (compiler.compile (inputSchemaOrEmpty resolvedSchemasFor apiVersion operationId)).isValid
        data = true)) ∧
      Fresh compiler apiVersion (inputSchemaOrEmpty resolvedSchemasFor apiVersion)
        (validateInput compiler resolvedSchemasFor cache apiVersion operationId data).2 := by
  obtain ⟨hvalidator, hfresh⟩ := h.orInsert operationId
  unfold validateInput validateAgainst
  simp only [hvalidator]
  by_cases hvalid : (compiler.compile
      (inputSchemaOrEmpty resolvedSchemasFor apiVersion operationId)).isValid data = true
  · simp only [hvalid, if_true, true_and]
    exact hfresh
  · simp only [hvalid, if_false, reduceCtorEq, true_and]
    exact hfresh

theorem validateOutput_fresh {apiVersion : String} {cache : Validators}
    (h : Fresh compiler apiVersion (outputSchemaOrEmpty resolvedSchemasFor apiVersion) cache)
    (operationId : String) (data : Json) :
    Fresh compiler apiVersion (outputSchemaOrEmpty resolvedSchemasFor apiVersion)
      (validateOutput compiler resolvedSchemasFor cache apiVersion operationId data).2 := by
  obtain ⟨hvalidator, hfresh⟩ := h.orInsert operationId
  unfold validateOutput validateAgainst
  simp only [hvalidator]
  split
  · rename_i heq
    split at heq
    · obtain rfl := (Prod.mk.inj heq).2
      exact hfresh
    · simp at heq
  · rename_i heq
    split at heq
    · simp at heq
    · obtain rfl := (Prod.mk.inj heq).2
      exact hfresh

end Validate

end SqlServerMcp.Validator
