import Mathlib.Data.Finset.Card
import SqlServerMcp.PopulateEmbeddings

/-!
The diagnostic that a search runs first. It compares the sizes of the two tables
of a store, where the check after an indexing run compares their ids. The two
agree as long as vectors without an operation do not make up for missing ones.
-/
namespace SqlServerMcp.SearchTool

open AssocMap PopulateEmbeddings

def endpointsCount (store : Store) : ℕ := store.endpoints.length
def semanticCount (store : Store) : ℕ := store.semanticEndpoints.entries.length

/-- The warning, if there is one. -/
def warnIfEmbeddingsIncomplete (store : Store) : Option String :=
  if semanticCount store < endpointsCount store then
    some ("semantic_endpoints is missing " ++
      toString (endpointsCount store - semanticCount store) ++
      " row(s) compared to endpoints — search results may be incomplete; " ++
      "re-run populate-embeddings for this store")
  else none

/-- The ids that the store lists, and those it has a vector for. -/
def endpointIds (store : Store) : Finset String :=
  (store.endpoints.map EndpointRow.operationId).toFinset

def embeddedIds (store : Store) : Finset String := (keys store.semanticEndpoints.entries).toFinset

theorem card_endpointIds (store : Store) : (endpointIds store).card = endpointsCount store := by
  rw [endpointIds, List.toFinset_card_of_nodup store.distinct, List.length_map, endpointsCount]

theorem card_embeddedIds (store : Store) : (embeddedIds store).card = semanticCount store := by
  rw [embeddedIds, List.toFinset_card_of_nodup store.semanticEndpoints.distinct, keys,
    List.length_map, semanticCount]

theorem mem_missingOperationIds_iff (store : Store) (operationId : String) :
    operationId ∈ missingOperationIds store ↔
      operationId ∈ endpointIds store \ embeddedIds store := by
  have hget : store.semanticEndpoints.get operationId = none ↔
      operationId ∉ keys store.semanticEndpoints.entries :=
    lookup_eq_none_iff store.semanticEndpoints.entries operationId
  rw [Finset.mem_sdiff, endpointIds, embeddedIds, List.mem_toFinset, List.mem_toFinset, ← hget,
    missingOperationIds, List.mem_filter, decide_eq_true_eq]

theorem missingOperationIds_eq_nil_iff (store : Store) :
    missingOperationIds store = [] ↔ endpointIds store ⊆ embeddedIds store := by
  rw [List.eq_nil_iff_forall_not_mem, ← Finset.sdiff_eq_empty_iff_subset,
    Finset.eq_empty_iff_forall_notMem]
  exact forall_congr' fun operationId => not_congr (mem_missingOperationIds_iff store operationId)

/-- The search warns when fewer vectors are left over than are missing. -/
theorem warns_iff (store : Store) :
    (warnIfEmbeddingsIncomplete store).isSome = true ↔
      (embeddedIds store \ endpointIds store).card <
        (endpointIds store \ embeddedIds store).card := by
  rw [Finset.card_sdiff_lt_card_sdiff_iff, card_embeddedIds, card_endpointIds]
  unfold warnIfEmbeddingsIncomplete
  split
  · rename_i h
    exact iff_of_true rfl h
  · rename_i h
    exact iff_of_false Bool.false_ne_true h

/-- A warning is never false: some operation has no vector. -/
theorem missing_of_warns {store : Store}
    (h : (warnIfEmbeddingsIncomplete store).isSome = true) :
    ¬ endpointIds store ⊆ embeddedIds store := by
  intro hsubset
  rw [warns_iff, Finset.sdiff_eq_empty_iff_subset.mpr hsubset, Finset.card_empty] at h
  omega

/-- The warning tells which stores are incomplete except where as many vectors
are left over as are missing. -/
theorem warns_iff_missing_iff (store : Store) :
    ((warnIfEmbeddingsIncomplete store).isSome = true ↔ missingOperationIds store ≠ []) ↔
      endpointIds store ⊆ embeddedIds store ∨
        (embeddedIds store \ endpointIds store).card <
          (endpointIds store \ embeddedIds store).card := by
  rw [ne_eq, missingOperationIds_eq_nil_iff, ← warns_iff]
  constructor
  · intro h
    by_cases hsubset : endpointIds store ⊆ embeddedIds store
    · exact Or.inl hsubset
    · exact Or.inr (h.mpr hsubset)
  · intro h'
    obtain hsubset | hwarns := h'
    · exact iff_of_false (fun h => missing_of_warns h hsubset) (not_not.mpr hsubset)
    · exact iff_of_true hwarns (missing_of_warns hwarns)

/-- One operation without a vector, and a vector of an operation that is gone. -/
theorem not_warns_iff_missing_leftOver :
    ¬ ((warnIfEmbeddingsIncomplete
          (sampleStore (Map.empty.insert "sp_who2" [0, 0, 0, 0]))).isSome = true ↔
        missingOperationIds (sampleStore (Map.empty.insert "sp_who2" [0, 0, 0, 0])) ≠ []) := by
  intro h
  have hmissing : missingOperationIds
      (sampleStore (Map.empty.insert "sp_who2" [0, 0, 0, 0])) = ["sp_who"] := by rfl
  rw [hmissing] at h
  have hwarns := h.mpr (List.cons_ne_nil _ _)
  contradiction

end SqlServerMcp.SearchTool
