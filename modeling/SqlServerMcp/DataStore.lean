import SqlServerMcp.ApiClient
import SqlServerMcp.NearestNeighbours
import SqlServerMcp.Ranking
import SqlServerMcp.SearchTool

/-!
The tables of a store as the tools read them. An operation is found by its id;
a search joins the nearest vectors with the operations that they belong to, so a
vector that has no operation takes a place among the nearest and is then lost.
-/
namespace SqlServerMcp.DataStore

open AssocMap JsonValue NearestNeighbours PopulateEmbeddings SearchTool

/-- A row of `endpoints` with all its columns. -/
structure StoredEndpoint extends EndpointRow where
  inputSchema : String
  outputSchema : String
  authSchemeRef : Option String

structure Tables where
  endpoints : List StoredEndpoint
  semanticEndpoints : Vectors
  distinct : (endpoints.map fun row => row.operationId).Nodup

theorem Tables.distinct_rows (tables : Tables) :
    ((tables.endpoints.map StoredEndpoint.toEndpointRow).map EndpointRow.operationId).Nodup := by
  rw [List.map_map]
  exact tables.distinct

/-- The tables without the columns that indexing does not read. -/
def Tables.store (tables : Tables) : Store where
  endpoints := tables.endpoints.map StoredEndpoint.toEndpointRow
  semanticEndpoints := tables.semanticEndpoints
  distinct := tables.distinct_rows

structure EndpointRecord where
  operationId : String
  path : String
  method : String
  summary : Option String
  description : Option String
  inputSchema : Json
  outputSchema : Json
  authSchemeRef : Option String

/-- What a call reads of it. -/
def EndpointRecord.called (record : EndpointRecord) : ApiClient.EndpointRecord :=
  ⟨record.operationId, record.path, record.description⟩

section Queries

-- Parsing of the schema columns, and the distance of a stored vector from a query.
variable {D S : Type} [LinearOrder D] (fromStr : String → Option Json)
variable (distance : List UInt8 → List UInt8 → D) (oneMinus : D → S)

def rowToEndpoint (row : StoredEndpoint) : EndpointRecord where
  operationId := row.operationId
  path := row.path
  method := row.method
  summary := row.summary
  description := row.description
  inputSchema := (fromStr row.inputSchema).getD .null
  outputSchema := (fromStr row.outputSchema).getD .null
  authSchemeRef := row.authSchemeRef

def rowOf (tables : Tables) (operationId : String) : Option StoredEndpoint :=
  tables.endpoints.find? fun row => row.operationId = operationId

def getEndpoint (tables : Tables) (operationId : String) : Option EndpointRecord :=
  (rowOf tables operationId).map (rowToEndpoint fromStr)

def getOperation (tables : Tables) (operationId : String) : Except String EndpointRecord :=
  match getEndpoint fromStr tables operationId with
  | none => .error ("unknown operationId '" ++ operationId ++ "'")
  | some endpoint => .ok endpoint

structure SearchResult (S : Type) where
  operationId : String
  summary : Option String
  similarity : S

/-- The operation of a vector, with the distance of the vector. -/
def partner (tables : Tables) (query : List UInt8) (entry : String × List UInt8) :
    Option (StoredEndpoint × D) :=
  (rowOf tables entry.1).map fun row => (row, distance query entry.2)

def joined (tables : Tables) (query : List UInt8) (entries : List (String × List UInt8)) :
    List (StoredEndpoint × D) := entries.filterMap (partner distance tables query)

def searchResult (found : StoredEndpoint × D) : SearchResult S :=
  ⟨found.1.operationId, found.1.summary, oneMinus found.2⟩

/-- What a search may answer: the extension chooses `limit` nearest vectors, and
their operations come in the order of their distances. -/
structure SearchEndpoints (tables : Tables) (query : List UInt8) (limit : ℕ)
    (chosen left : List (String × List UInt8)) (found : List (StoredEndpoint × D)) : Prop where
  nearest : Nearest (fun entry : String × List UInt8 => distance query entry.2) limit
    tables.semanticEndpoints.entries chosen left
  rows : found.Perm (joined distance tables query chosen)
  ordered : found.Pairwise fun a b => a.2 ≤ b.2

/-- The answer of a search that takes vectors at one distance in the table's order. -/
def searchEndpoints (tables : Tables) (query : List UInt8) (limit : ℕ) :
    List (StoredEndpoint × D) :=
  joined distance tables query
    ((Ranking.sortOn (fun entry => distance query entry.2)
      tables.semanticEndpoints.entries).take limit)

variable {distance} {tables : Tables} {query : List UInt8} {limit : ℕ}
  {chosen left : List (String × List UInt8)} {found : List (StoredEndpoint × D)}

theorem rowOf_eq_some_iff (tables : Tables) (operationId : String) (row : StoredEndpoint) :
    rowOf tables operationId = some row ↔
      row ∈ tables.endpoints ∧ row.operationId = operationId := by
  have hid : ∀ {operationId row}, rowOf tables operationId = some row →
      row.operationId = operationId := by
    intro operationId row h
    unfold rowOf at h
    simpa using List.find?_some h
  constructor
  · intro h
    exact ⟨List.mem_of_find?_eq_some h, hid h⟩
  · intro h
    obtain ⟨hrow, rfl⟩ := h
    cases hfind : rowOf tables row.operationId with
    | none => exact absurd (decide_eq_true rfl) (List.find?_eq_none.mp hfind row hrow)
    | some found =>
      have hfound : found ∈ tables.endpoints := List.mem_of_find?_eq_some hfind
      exact congrArg some (List.inj_on_of_nodup_map tables.distinct hfound hrow (hid hfind))

theorem isSome_rowOf_iff (tables : Tables) (operationId : String) :
    (rowOf tables operationId).isSome = true ↔ operationId ∈ endpointIds tables.store := by
  rw [Option.isSome_iff_exists]
  simp only [rowOf_eq_some_iff, endpointIds, Tables.store, List.map_map, List.mem_toFinset,
    List.mem_map]
  exact Iff.rfl

omit [LinearOrder D] in
theorem mem_joined_iff (tables : Tables) (query : List UInt8)
    (chosen : List (String × List UInt8)) (row : StoredEndpoint) (d : D) :
    (row, d) ∈ joined distance tables query chosen ↔
      row ∈ tables.endpoints ∧ ∃ blob, (row.operationId, blob) ∈ chosen ∧
        distance query blob = d := by
  simp only [joined, partner, List.mem_filterMap, Option.map_eq_some_iff, rowOf_eq_some_iff]
  constructor
  · intro h
    obtain ⟨⟨operationId, blob⟩, hentry, row', ⟨hrow, hid⟩, heq⟩ := h
    obtain ⟨rfl, rfl⟩ := Prod.mk.inj heq
    exact ⟨hrow, blob, hid ▸ hentry, rfl⟩
  · intro h
    obtain ⟨hrow, blob, hentry, rfl⟩ := h
    exact ⟨(row.operationId, blob), hentry, row, ⟨hrow, rfl⟩, rfl⟩

theorem getOperation_eq_ok_iff (tables : Tables) (operationId : String)
    (endpoint : EndpointRecord) :
    getOperation fromStr tables operationId = .ok endpoint ↔
      ∃ row ∈ tables.endpoints, row.operationId = operationId ∧
        rowToEndpoint fromStr row = endpoint := by
  have hget : getOperation fromStr tables operationId = .ok endpoint ↔
      getEndpoint fromStr tables operationId = some endpoint := by
    unfold getOperation
    cases getEndpoint fromStr tables operationId with
    | none => simp
    | some found => simp
  rw [hget, getEndpoint, Option.map_eq_some_iff]
  simp only [rowOf_eq_some_iff, and_assoc]

omit [LinearOrder D] in
theorem mem_of_mem_joined {row : StoredEndpoint} {d : D}
    {entries : List (String × List UInt8)} (h : (row, d) ∈ joined distance tables query entries) :
    row ∈ tables.endpoints := ((mem_joined_iff tables query entries row d).mp h).1

omit [LinearOrder D] in
theorem distinct_joined {entries : List (String × List UInt8)} (h : DistinctKeys entries) :
    ((joined distance tables query entries).map fun f => f.1.operationId).Nodup := by
  have hsub := keys_filterMap_sublist entries (partner distance tables query)
    (fun f => f.1.operationId)
  refine (hsub ?_).nodup h
  intro entry f hf
  obtain ⟨row, hrow, rfl⟩ := Option.map_eq_some_iff.mp hf
  exact ((rowOf_eq_some_iff tables entry.1 row).mp hrow).2

namespace SearchEndpoints

theorem distinct_chosen (h : SearchEndpoints distance tables query limit chosen left found) :
    DistinctKeys chosen := by
  have hall : DistinctKeys (chosen ++ left) :=
    tables.semanticEndpoints.distinct.perm h.nearest.perm.symm
  exact hall.sublist (List.sublist_append_left chosen left)

theorem distinct_found (h : SearchEndpoints distance tables query limit chosen left found) :
    (found.map fun f => f.1.operationId).Nodup :=
  (h.rows.map _).nodup_iff.mpr (distinct_joined h.distinct_chosen)

theorem mem_endpoints (h : SearchEndpoints distance tables query limit chosen left found)
    {f : StoredEndpoint × D} (hf : f ∈ found) : f.1 ∈ tables.endpoints :=
  mem_of_mem_joined (h.rows.subset hf)

/-- The answer is nearest among all operations that have a vector. -/
theorem nearest_found (h : SearchEndpoints distance tables query limit chosen left found) :
    Nearest Prod.snd found.length (joined distance tables query tables.semanticEndpoints.entries)
      found (joined distance tables query left) := by
  rw [h.rows.length_eq]
  refine Nearest.perm_chosen (h.nearest.filterMap ?_) h.rows
  intro entry f hf
  obtain ⟨row, -, rfl⟩ := Option.map_eq_some_iff.mp hf
  rfl

theorem length_found_iff (h : SearchEndpoints distance tables query limit chosen left found) :
    found.length =
        min limit (joined distance tables query tables.semanticEndpoints.entries).length ↔
      (∀ entry ∈ chosen, entry.1 ∈ endpointIds tables.store) ∨
        ∀ entry ∈ left, entry.1 ∉ endpointIds tables.store := by
  have hpartner : ∀ entry, (partner distance tables query entry).isSome = true ↔
      entry.1 ∈ endpointIds tables.store := by
    intro entry
    rw [partner, Option.isSome_map, isSome_rowOf_iff]
  rw [h.rows.length_eq]
  simp only [← hpartner, Bool.not_eq_true]
  exact h.nearest.length_filterMap_eq_iff

theorem getOperation_found
    (h : SearchEndpoints distance tables query limit chosen left found) :
    ∀ result ∈ found.map (searchResult oneMinus), ∃ endpoint,
      getOperation fromStr tables result.operationId = .ok endpoint ∧
        endpoint.summary = result.summary := by
  intro result hresult
  obtain ⟨f, hf, rfl⟩ := List.mem_map.mp hresult
  refine ⟨rowToEndpoint fromStr f.1, ?_, rfl⟩
  exact (getOperation_eq_ok_iff fromStr tables _ _).mpr ⟨f.1, h.mem_endpoints hf, rfl, rfl⟩

end SearchEndpoints

theorem searchEndpoints_answers (tables : Tables) (query : List UInt8) (limit : ℕ) :
    ∃ chosen left, SearchEndpoints distance tables query limit chosen left
      (searchEndpoints distance tables query limit) := by
  let key := fun entry : String × List UInt8 => distance query entry.2
  let sorted := Ranking.sortOn key tables.semanticEndpoints.entries
  have hsorted : sorted.Pairwise fun a b => key a ≤ key b := Ranking.sortOn_pairwise_le key _
  refine ⟨sorted.take limit, sorted.drop limit, ?_, List.Perm.refl _, ?_⟩
  · exact (nearest_take hsorted limit).perm_rows (Ranking.sortOn_perm key _)
  · -- The join keeps the order of the vectors and their distances.
    refine List.Pairwise.filterMap _ ?_ (hsorted.sublist (List.take_sublist limit sorted))
    intro a b hab f hf g hg
    obtain ⟨row, -, rfl⟩ := Option.map_eq_some_iff.mp hf
    obtain ⟨row', -, rfl⟩ := Option.map_eq_some_iff.mp hg
    exact hab

/-- Every result of a search is an operation that is found by its id, none occurs
twice, and they come nearest first and are the nearest of all operations with a
vector. They are as many as were asked for, or all that there are, unless a vector
without an operation was chosen before one with an operation. -/
theorem search_nearest (tables : Tables) (query : List UInt8) (limit : ℕ)
    (chosen left : List (String × List UInt8)) (found : List (StoredEndpoint × D))
    (h : SearchEndpoints distance tables query limit chosen left found) :
    (∀ result ∈ found.map (searchResult oneMinus), ∃ endpoint,
      getOperation fromStr tables result.operationId = .ok endpoint ∧
        endpoint.summary = result.summary) ∧
    ((found.map (searchResult oneMinus)).map SearchResult.operationId).Nodup ∧
    found.Pairwise (fun a b => a.2 ≤ b.2) ∧
    (∃ missed, Nearest Prod.snd found.length
      (joined distance tables query tables.semanticEndpoints.entries) found missed) ∧
    ((∃ missed, Nearest Prod.snd limit
        (joined distance tables query tables.semanticEndpoints.entries) found missed) ↔
      (∀ entry ∈ chosen, entry.1 ∈ endpointIds tables.store) ∨
        ∀ entry ∈ left, entry.1 ∉ endpointIds tables.store) := by
  refine ⟨h.getOperation_found fromStr oneMinus, ?_, h.ordered, ⟨_, h.nearest_found⟩, ?_⟩
  · rw [List.map_map]
    exact h.distinct_found
  · rw [← h.length_found_iff]
    constructor
    · intro hmissed
      obtain ⟨missed, hmissed⟩ := hmissed
      exact hmissed.length
    · intro hlength
      have hnearest := h.nearest_found
      exact ⟨_, ⟨hnearest.perm, hlength, hnearest.nearer⟩⟩

section Populated

variable (embed : String → Except String (List UInt32)) (dimension : ℕ) (path : String)

/-- The vector that indexing stores for an operation. -/
def indexedVector (row : StoredEndpoint) : List UInt8 :=
  match embed row.text with
  | .error _ => []
  | .ok vector => vectorToLeBytes vector

theorem indexedVector_of_indexes {row : StoredEndpoint} {operationId : String} {blob : List UInt8}
    (h : Indexes embed row.toEndpointRow (operationId, blob)) :
    indexedVector embed row = blob := by
  obtain ⟨-, vector, hvector, hblob⟩ := h
  simp only [indexedVector, hvector]
  exact hblob.symm

theorem entry_of_indexed (hindexed : Indexed embed dimension path tables.store)
    {row : StoredEndpoint} {blob : List UInt8} (hrow : row ∈ tables.endpoints)
    (hentry : (row.operationId, blob) ∈ tables.semanticEndpoints.entries) :
    blob = indexedVector embed row := by
  have hget := (get_eq_some_iff tables.semanticEndpoints row.operationId blob).mpr hentry
  obtain ⟨row', hrow', hindexes⟩ := (hindexed.rows row.operationId blob).mp hget
  obtain ⟨stored, hstored, rfl⟩ := List.mem_map.mp hrow'
  have hsame : stored = row :=
    List.inj_on_of_nodup_map tables.distinct hstored hrow hindexes.1.symm
  rw [← hsame, indexedVector_of_indexes embed hindexes]

theorem mem_entries_of_indexed (hindexed : Indexed embed dimension path tables.store)
    {row : StoredEndpoint} (hrow : row ∈ tables.endpoints) (blob : List UInt8) :
    (row.operationId, blob) ∈ tables.semanticEndpoints.entries ↔
      blob = indexedVector embed row := by
  refine ⟨entry_of_indexed embed dimension path hindexed hrow, ?_⟩
  rintro rfl
  have hids : endpointIds tables.store ⊆ embeddedIds tables.store :=
    (missingOperationIds_eq_nil_iff tables.store).mp
      (missingOperationIds_after embed dimension path _ _ _ hindexed.rerun)
  have hid : row.operationId ∈ embeddedIds tables.store := by
    refine hids ((isSome_rowOf_iff tables row.operationId).mp ?_)
    rw [(rowOf_eq_some_iff tables row.operationId row).mpr ⟨hrow, rfl⟩]
    rfl
  obtain ⟨blob, hblob⟩ := (mem_keys_iff _ _).mp (List.mem_toFinset.mp hid)
  have hentry : (row.operationId, blob) ∈ tables.semanticEndpoints.entries :=
    (get_eq_some_iff tables.semanticEndpoints row.operationId blob).mp hblob
  rwa [← entry_of_indexed embed dimension path hindexed hrow hentry]

omit [LinearOrder D] in
theorem mem_joined_of_indexed (hindexed : Indexed embed dimension path tables.store)
    (row : StoredEndpoint) (d : D) :
    (row, d) ∈ joined distance tables query tables.semanticEndpoints.entries ↔
      row ∈ tables.endpoints ∧ distance query (indexedVector embed row) = d := by
  rw [mem_joined_iff]
  refine and_congr_right fun hrow => ?_
  simp only [mem_entries_of_indexed embed dimension path hindexed hrow, exists_eq_left]

omit [LinearOrder D] in
theorem joined_perm_of_indexed (hindexed : Indexed embed dimension path tables.store) :
    (joined distance tables query tables.semanticEndpoints.entries).Perm
      (tables.endpoints.map fun row => (row, distance query (indexedVector embed row))) := by
  have hjoined : (joined distance tables query tables.semanticEndpoints.entries).Nodup :=
    (distinct_joined tables.semanticEndpoints.distinct).of_map
  have hmap : (tables.endpoints.map fun row =>
      (row, distance query (indexedVector embed row))).Nodup := by
    refine List.Nodup.of_map (fun f => f.1.operationId) ?_
    rw [List.map_map]
    exact tables.distinct
  refine (List.perm_ext_iff_of_nodup hjoined hmap).mpr fun f => ?_
  rw [mem_joined_of_indexed embed dimension path hindexed f.1 f.2, List.mem_map]
  constructor
  · intro h
    exact ⟨f.1, h.1, by rw [h.2]⟩
  · intro h
    obtain ⟨row, hrow, rfl⟩ := h
    exact ⟨hrow, rfl⟩

theorem chosen_of_indexed (hindexed : Indexed embed dimension path tables.store)
    {entry : String × List UInt8} (hentry : entry ∈ tables.semanticEndpoints.entries) :
    entry.1 ∈ endpointIds tables.store := by
  have hget := (get_eq_some_iff tables.semanticEndpoints entry.1 entry.2).mpr hentry
  obtain ⟨row, hrow, hindexes⟩ := (hindexed.rows entry.1 entry.2).mp hget
  rw [hindexes.1]
  exact List.mem_toFinset.mpr (List.mem_map_of_mem hrow)

/-- After an indexing run that succeeds on a store without stale vectors, a search
answers the nearest operations by the embeddings of their texts, as many as were
asked for or all that there are. -/
theorem search_populated (before : Store) (count : ℕ) (tables : Tables) (query : List UInt8)
    (limit : ℕ) (chosen left : List (String × List UInt8)) (found : List (StoredEndpoint × D))
    (hpopulate : populateOne embed dimension path before = (.ok count, tables.store))
    (hstale : NoStaleRow before)
    (h : SearchEndpoints distance tables query limit chosen left found) :
    (∃ missed, Nearest (fun row => distance query (indexedVector embed row)) limit
      tables.endpoints (found.map Prod.fst) missed) ∧
    ∀ f ∈ found, f.2 = distance query (indexedVector embed f.1) := by
  have hindexed := indexed_of_noStaleRow embed dimension path hpopulate hstale
  have hchosen : ∀ entry ∈ chosen, entry.1 ∈ endpointIds tables.store := fun entry hentry =>
    chosen_of_indexed embed dimension path hindexed (h.nearest.mem_rows hentry)
  have hnearest : Nearest Prod.snd limit
      (tables.endpoints.map fun row => (row, distance query (indexedVector embed row))) found
      (joined distance tables query left) := by
    refine Nearest.perm_rows ⟨h.nearest_found.perm, ?_, h.nearest_found.nearer⟩
      (joined_perm_of_indexed embed dimension path hindexed)
    exact h.length_found_iff.mpr (.inl hchosen)
  have hdistance : ∀ f ∈ tables.endpoints.map fun row =>
      (row, distance query (indexedVector embed row)),
      distance query (indexedVector embed f.1) = f.2 := by
    intro f hf
    obtain ⟨row, -, rfl⟩ := List.mem_map.mp hf
    rfl
  constructor
  · have hrows : (tables.endpoints.map fun row =>
        (row, distance query (indexedVector embed row))).map Prod.fst = tables.endpoints := by
      rw [List.map_map]
      exact List.map_id _
    rw [← hrows]
    exact ⟨_, hnearest.map (f := Prod.fst) hdistance⟩
  · intro f hf
    exact (hdistance f (hnearest.mem_rows hf)).symm

end Populated

end Queries

def storedRow (row : EndpointRow) : StoredEndpoint := ⟨row, "null", "null", none⟩

def sampleTables (vectors : Vectors) : Tables :=
  ⟨sampleRows.map storedRow, vectors, by decide⟩

/-- How far the first numbers of two vectors are apart. -/
def gap (a b : List UInt8) : ℕ :=
  ((a.headD 0).toNat - (b.headD 0).toNat) + ((b.headD 0).toNat - (a.headD 0).toNat)

/-- A vector of an operation that the store does not list is nearer to the query
than that of one that it lists. -/
def staleVectors : Vectors :=
  (Map.empty.insert "sp_who2" [27, 0, 0, 0]).insert "sp_who" [26, 0, 0, 0] |>.insert "sp_help"
    [34, 0, 0, 0]

theorem staleSearch : SearchEndpoints gap (sampleTables staleVectors) [32, 0, 0, 0] 2
    [("sp_help", [34, 0, 0, 0]), ("sp_who2", [27, 0, 0, 0])] [("sp_who", [26, 0, 0, 0])]
    (joined gap (sampleTables staleVectors) [32, 0, 0, 0] [("sp_help", [34, 0, 0, 0])]) where
  nearest := ⟨by decide, rfl, by decide⟩
  rows := List.Perm.refl _
  ordered := List.pairwise_singleton _ _

/-- The search may answer one operation where two have a vector. -/
theorem search_nearest_stale :
    ¬ ∃ missed, Nearest Prod.snd 2 (joined gap (sampleTables staleVectors) [32, 0, 0, 0]
      (sampleTables staleVectors).semanticEndpoints.entries)
      (joined gap (sampleTables staleVectors) [32, 0, 0, 0] [("sp_help", [34, 0, 0, 0])])
      missed := by
  have h := search_nearest (fun _ => none) Nat.succ (sampleTables staleVectors) _ _ _ _ _
    staleSearch
  exact mt h.2.2.2.2.mp (by decide)

/-- The two nearest of the three operations. -/
def helpAndLock : List (String × List UInt8) :=
  [("sp_help", [34, 0, 0, 0]), ("sp_lock", [27, 0, 0, 0])]

theorem populatedSearch : SearchEndpoints gap (sampleTables lengthVectors) [32, 0, 0, 0] 2
    helpAndLock [("sp_who", [26, 0, 0, 0])]
    (joined gap (sampleTables lengthVectors) [32, 0, 0, 0] helpAndLock) where
  nearest := ⟨by decide, rfl, by decide⟩
  rows := List.Perm.refl _
  ordered := by decide

theorem search_populated_two :
    (∃ missed, Nearest (fun row => gap [32, 0, 0, 0] (indexedVector lengthModel row)) 2
      (sampleTables lengthVectors).endpoints
      ((joined gap (sampleTables lengthVectors) [32, 0, 0, 0] helpAndLock).map Prod.fst)
      missed) ∧
    ∀ f ∈ joined gap (sampleTables lengthVectors) [32, 0, 0, 0] helpAndLock,
      f.2 = gap [32, 0, 0, 0] (indexedVector lengthModel f.1) :=
  search_populated lengthModel 1 "store.db"
    ⟨sampleRows, Map.empty.insert "sp_who" [1, 2, 3, 4], by decide⟩ 3 _ _ _ _ _ _ rfl
    (by simp [NoStaleRow, sampleRows, sampleRow, Map.get_insert]) populatedSearch

end SqlServerMcp.DataStore
