import SqlServerMcp.ApiClient
import SqlServerMcp.Validator

/-!
The call of an operation: its arguments are validated, the statement is run and
the response is checked, which may only be logged. A process serves calls one
after another under one configuration; its validators stay those of the
embedded schemas.
-/
namespace SqlServerMcp.CallTool

open ApiClient ConfigSchema JsonValue SqlPool SqlValue Validator

inductive CallError where
  | mcpify (err : McpifyError)
  | fault (fault : Fault)

/-- What calls share: the connection pools and the compiled validators. -/
structure Process where
  pools : Pools
  inputValidators : Validators
  outputValidators : Validators

def Process.initial : Process := ⟨[], [], []⟩

structure CallRequest where
  endpoint : EndpointRecord
  operationId : String
  args : Json
  answers : Answers

structure CallOutcome where
  result : Except CallError Json
  process : Process
  actions : List Action

section Call

variable (compiler : SchemaCompiler) (lib : Libraries)
variable (resolvedSchemasFor : String → String → Option (Json × Json)) (config : Config)

def callOperation (process : Process) (call : CallRequest) : CallOutcome :=
  match validateInput compiler resolvedSchemasFor process.inputValidators config.apiVersion
      call.operationId call.args with
  | (.error err, validators) =>
    ⟨.error (.mcpify err), { process with inputValidators := validators }, []⟩
  | (.ok (), validators) =>
    let outcome := execute lib resolvedSchemasFor config call.endpoint call.args call.answers
      process.pools
    match outcome.result with
    | .error fault =>
      ⟨.error (.fault fault),
        { process with pools := outcome.pools, inputValidators := validators }, outcome.actions⟩
    | .ok response =>
      -- a response that does not meet its schema is logged and returned as it is
      let checked := validateOutput compiler resolvedSchemasFor process.outputValidators
        config.apiVersion call.operationId response
      ⟨.ok response, ⟨outcome.pools, validators, checked.2⟩, outcome.actions⟩

def runCalls (process : Process) (calls : List CallRequest) : Process :=
  calls.foldl (fun process call =>
    (callOperation compiler lib resolvedSchemasFor config process call).process) process

/-- Both caches hold compiled schemas of their own side only. -/
def ValidatorsFresh (process : Process) : Prop :=
  Fresh compiler config.apiVersion (inputSchemaOrEmpty resolvedSchemasFor config.apiVersion)
      process.inputValidators ∧
    Fresh compiler config.apiVersion (outputSchemaOrEmpty resolvedSchemasFor config.apiVersion)
      process.outputValidators

variable {compiler resolvedSchemasFor config}

theorem ValidatorsFresh.callOperation {process : Process}
    (h : ValidatorsFresh compiler resolvedSchemasFor config process) (call : CallRequest) :
    ValidatorsFresh compiler resolvedSchemasFor config
      (callOperation compiler lib resolvedSchemasFor config process call).process := by
  have hinput := (validateInput_spec resolvedSchemasFor h.1 call.operationId call.args).2
  unfold CallTool.callOperation
  split
  · rename_i heq
    rw [heq] at hinput
    exact ⟨hinput, h.2⟩
  · rename_i heq
    rw [heq] at hinput
    simp only []
    split
    · exact ⟨hinput, h.2⟩
    · exact ⟨hinput, validateOutput_fresh resolvedSchemasFor h.2 call.operationId _⟩

theorem initial_validatorsFresh :
    ValidatorsFresh compiler resolvedSchemasFor config Process.initial :=
  ⟨fresh_nil compiler _ _, fresh_nil compiler _ _⟩

/-- Every process that has served any calls has fresh validators. -/
theorem runCalls_validatorsFresh (calls : List CallRequest) :
    ValidatorsFresh compiler resolvedSchemasFor config
      (runCalls compiler lib resolvedSchemasFor config Process.initial calls) := by
  have hrun : ∀ process, ValidatorsFresh compiler resolvedSchemasFor config process →
      ValidatorsFresh compiler resolvedSchemasFor config
        (runCalls compiler lib resolvedSchemasFor config process calls) := by
    induction calls with
    | nil =>
      intro process h
      exact h
    | cons call rest ih =>
      intro process h
      exact ih _ (h.callOperation lib call)
  exact hrun Process.initial initial_validatorsFresh

/-- A call acts on its surroundings only once the compiled input schema has
accepted its arguments, and then as its execution does. -/
theorem callOperation_actions {process : Process}
    (h : ValidatorsFresh compiler resolvedSchemasFor config process) (call : CallRequest) :
    (callOperation compiler lib resolvedSchemasFor config process call).actions =
      if (compiler.compile (inputSchemaOrEmpty resolvedSchemasFor config.apiVersion
          call.operationId)).isValid call.args = true then
        (execute lib resolvedSchemasFor config call.endpoint call.args call.answers
          process.pools).actions
      else [] := by
  have hverdict := (validateInput_spec resolvedSchemasFor h.1 call.operationId call.args).1
  unfold CallTool.callOperation
  split
  · rename_i heq
    rw [heq] at hverdict
    rw [if_neg (by simpa using hverdict)]
  · rename_i heq
    rw [heq] at hverdict
    rw [if_pos (hverdict.mp rfl)]
    simp only []
    split
    · rfl
    · rfl

theorem action_mem_execute {process : Process} {call : CallRequest} {action : Action}
    (h : action ∈ (callOperation compiler lib resolvedSchemasFor config process call).actions) :
    action ∈ (execute lib resolvedSchemasFor config call.endpoint call.args call.answers
      process.pools).actions := by
  unfold CallTool.callOperation at h
  split at h
  · contradiction
  · simp only [] at h
    split at h
    · exact h
    · exact h

/-- Rejected arguments end the call with an error. -/
theorem callOperation_rejected {process : Process}
    (h : ValidatorsFresh compiler resolvedSchemasFor config process) (call : CallRequest)
    (hinvalid : (compiler.compile (inputSchemaOrEmpty resolvedSchemasFor config.apiVersion
      call.operationId)).isValid call.args ≠ true) :
    ∃ err, (callOperation compiler lib resolvedSchemasFor config process call).result =
      .error err := by
  have hverdict := (validateInput_spec resolvedSchemasFor h.1 call.operationId call.args).1
  unfold CallTool.callOperation
  split
  · exact ⟨_, rfl⟩
  · rename_i heq
    rw [heq] at hverdict
    exact absurd (hverdict.mp rfl) hinvalid

end Call

end SqlServerMcp.CallTool
