import SqlServerMcp.AssocMap

/-!
Indexing of a store. Every operation has its old vector deleted and a new one
inserted, one after the other, so a failure leaves the table with the rows that
were done before it. Only the operations that the store lists are visited: a row
of any other operation stays where it is.
-/
namespace SqlServerMcp.PopulateEmbeddings

open AssocMap

/-- A row of the `endpoints` table. -/
structure EndpointRow where
  operationId : String
  path : String
  method : String
  summary : Option String
  description : Option String

/-- The tables of a store: the operations, under distinct ids, and the vectors,
of a fixed number of bytes, under distinct ids as well. -/
structure Store where
  endpoints : List EndpointRow
  semanticEndpoints : Map String (List UInt8)
  distinct : (endpoints.map EndpointRow.operationId).Nodup

/-- The text that is embedded for an operation. -/
def EndpointRow.text (row : EndpointRow) : String :=
  String.intercalate " "
    ([some row.method, some row.path, row.summary, row.description].filterMap id)

/-- The four bytes of a binary32 number, the lowest first. -/
def leBytes (bits : UInt32) : List UInt8 :=
  [bits.toUInt8, (bits >>> 8).toUInt8, (bits >>> 16).toUInt8, (bits >>> 24).toUInt8]

def vectorToLeBytes (vector : List UInt32) : List UInt8 := vector.flatMap leBytes

theorem length_vectorToLeBytes (vector : List UInt32) :
    (vectorToLeBytes vector).length = 4 * vector.length := by
  induction vector with
  | nil => rfl
  | cons bits rest ih =>
    have hcons : vectorToLeBytes (bits :: rest) = leBytes bits ++ vectorToLeBytes rest := rfl
    have hfour : (leBytes bits).length = 4 := rfl
    rw [hcons, List.length_append, hfour, ih, List.length_cons]
    omega

section Populate

-- The embedding model, and the length of the vectors that the table takes.
variable (embed : String → Except String (List UInt32)) (dimension : ℕ) (path : String)

abbrev Vectors := Map String (List UInt8)

/-- The table takes a vector of its length under an id that it does not have. -/
def insertVector (vectors : Vectors) (operationId : String) (blob : List UInt8) :
    Except String Vectors :=
  if blob.length ≠ 4 * dimension then .error "Dimension mismatch for inserted vector"
  else
    match vectors.get operationId with
    | some _ => .error "UNIQUE constraint failed on semantic_endpoints primary key"
    | none => .ok (vectors.insert operationId blob)

/-- The rows in order, each deleted and inserted, up to the first that fails; the
rows before it stay. -/
def populateRows : List EndpointRow → Vectors → Except String Unit × Vectors
  | [], vectors => (.ok (), vectors)
  | row :: rest, vectors =>
    match embed row.text with
    | .error err =>
      (.error ("failed to compute embedding for '" ++ row.operationId ++ "' in '" ++ path ++
        "': " ++ err), vectors)
    | .ok vector =>
      let deleted := vectors.erase row.operationId
      match insertVector dimension deleted row.operationId (vectorToLeBytes vector) with
      | .error err => (.error err, deleted)
      | .ok inserted => populateRows rest inserted

/-- The number of operations, and the store that is left. -/
def populateOne (store : Store) : Except String ℕ × Store :=
  let result := populateRows embed dimension path store.endpoints store.semanticEndpoints
  (result.1.map fun _ => store.endpoints.length, { store with semanticEndpoints := result.2 })

/-- The operations without a vector, which the check after the run reports. -/
def missingOperationIds (store : Store) : List String :=
  (store.endpoints.map EndpointRow.operationId).filter fun operationId =>
    store.semanticEndpoints.get operationId = none

/-- The row that is inserted for an operation. -/
def Indexes (row : EndpointRow) (entry : String × List UInt8) : Prop :=
  entry.1 = row.operationId ∧
    ∃ vector, embed row.text = .ok vector ∧ entry.2 = vectorToLeBytes vector

theorem insertVector_eq_ok_iff {vectors inserted : Vectors} {operationId : String}
    {blob : List UInt8} (hnew : vectors.get operationId = none) :
    insertVector dimension vectors operationId blob = .ok inserted ↔
      blob.length = 4 * dimension ∧
        inserted.entries = vectors.entries ++ [(operationId, blob)] := by
  have hentries := Map.entries_insert_of_get_eq_none vectors operationId blob hnew
  unfold insertVector
  by_cases hlength : blob.length = 4 * dimension
  · rw [if_neg (not_not.mpr hlength), hnew, Except.ok.injEq, and_iff_right hlength, ← hentries]
    exact ⟨fun h => h ▸ rfl, fun h => (Map.ext h).symm⟩
  · rw [if_pos hlength]
    exact iff_of_false nofun fun h => hlength h.1

theorem get_erase_self (vectors : Vectors) (operationId : String) :
    (vectors.erase operationId).get operationId = none := by
  rw [Map.get_erase, if_pos rfl]

/-- A run that goes through leaves the rows of the other operations as they were,
and after them a new row for each operation that was visited. -/
theorem populateRows_ok {rows : List EndpointRow} {vectors : Vectors}
    (hdistinct : (rows.map EndpointRow.operationId).Nodup)
    (h : (populateRows embed dimension path rows vectors).1 = .ok ()) :
    ∃ inserted : List (String × List UInt8),
      (populateRows embed dimension path rows vectors).2.entries =
        vectors.entries.filter (fun e => e.1 ∉ rows.map EndpointRow.operationId) ++ inserted ∧
      List.Forall₂ (Indexes embed) rows inserted ∧
      ∀ e ∈ inserted, e.2.length = 4 * dimension := by
  induction rows generalizing vectors with
  | nil =>
    refine ⟨[], ?_, .nil, nofun⟩
    simp [populateRows]
  | cons row rest ih =>
    obtain ⟨hrow, hrest⟩ := List.nodup_cons.mp hdistinct
    unfold populateRows at h ⊢
    cases hembed : embed row.text with
    | error err =>
      rw [hembed] at h
      contradiction
    | ok vector =>
      simp only [hembed] at h ⊢
      cases hinsert : insertVector dimension (vectors.erase row.operationId) row.operationId
          (vectorToLeBytes vector) with
      | error err =>
        simp only [hinsert] at h
        contradiction
      | ok inserted =>
        simp only [hinsert] at h ⊢
        obtain ⟨hlength, hentries⟩ :=
          (insertVector_eq_ok_iff dimension (get_erase_self vectors row.operationId)).mp hinsert
        obtain ⟨others, hothers, hindexes, hlengths⟩ := ih hrest h
        refine ⟨(row.operationId, vectorToLeBytes vector) :: others, ?_,
          .cons ⟨rfl, vector, hembed, rfl⟩ hindexes, ?_⟩
        · have herased : (vectors.erase row.operationId).entries =
              vectors.entries.filter fun e => e.1 ≠ row.operationId := rfl
          rw [hothers, hentries, herased, List.filter_append, List.filter_filter]
          have hkept : [(row.operationId, vectorToLeBytes vector)].filter
              (fun e => e.1 ∉ rest.map EndpointRow.operationId) =
                [(row.operationId, vectorToLeBytes vector)] := by
            rw [List.filter_singleton]
            simp only [hrow, not_false_eq_true, decide_true, cond_true]
          rw [hkept, List.append_assoc, List.singleton_append]
          congr 1
          apply List.filter_congr
          intro e _
          simp only [List.map_cons, List.mem_cons, not_or, ne_eq, Bool.decide_and, decide_not,
            Bool.and_comm]
        · intro e he
          rcases List.mem_cons.mp he with rfl | hmem
          · exact hlength
          · exact hlengths e hmem

/-- A run over operations that can all be embedded goes through: no row is in
the way of an insertion. -/
theorem populateRows_succeeds {rows : List EndpointRow} {inserted : List (String × List UInt8)}
    (hindexes : List.Forall₂ (Indexes embed) rows inserted)
    (hlengths : ∀ e ∈ inserted, e.2.length = 4 * dimension) (vectors : Vectors) :
    (populateRows embed dimension path rows vectors).1 = .ok () := by
  induction hindexes generalizing vectors with
  | nil => rfl
  | @cons row entry rest others hrow _ ih =>
    obtain ⟨hid, vector, hembed, hblob⟩ := hrow
    have hlength : (vectorToLeBytes vector).length = 4 * dimension :=
      hblob ▸ hlengths entry List.mem_cons_self
    have hinsert : insertVector dimension (vectors.erase row.operationId) row.operationId
        (vectorToLeBytes vector) = .ok ((vectors.erase row.operationId).insert row.operationId
          (vectorToLeBytes vector)) := by
      rw [insertVector, if_neg (not_not.mpr hlength), get_erase_self]
    unfold populateRows
    simp only [hembed, hinsert]
    exact ih (fun e he => hlengths e (List.mem_cons_of_mem _ he)) _

theorem Indexes.unique {row : EndpointRow} {e e' : String × List UInt8} (h : Indexes embed row e)
    (h' : Indexes embed row e') : e = e' := by
  obtain ⟨hid, vector, hembed, hblob⟩ := h
  obtain ⟨hid', vector', hembed', hblob'⟩ := h'
  obtain rfl := Except.ok.inj (hembed.symm.trans hembed')
  exact Prod.ext (hid.trans hid'.symm) (hblob.trans hblob'.symm)

/-- The rows that are inserted are those of the operations, one for each. -/
theorem mem_inserted_iff {rows : List EndpointRow} {inserted : List (String × List UInt8)}
    (h : List.Forall₂ (Indexes embed) rows inserted) (e : String × List UInt8) :
    e ∈ inserted ↔ ∃ row ∈ rows, Indexes embed row e := by
  induction h with
  | nil => simp
  | @cons row entry rest others hrow _ ih =>
    rw [List.mem_cons, ih, List.exists_mem_cons_iff]
    apply or_congr_left
    constructor
    · intro h'
      subst h'
      exact hrow
    · intro he
      exact he.unique embed hrow

/-- The table has one vector for each operation, that of its text, and no other
row; a second run changes nothing; and the two tables have as many rows. -/
structure Indexed (store : Store) : Prop where
  rows : ∀ operationId blob, store.semanticEndpoints.get operationId = some blob ↔
    ∃ row ∈ store.endpoints, Indexes embed row (operationId, blob)
  rerun : populateOne embed dimension path store = (.ok store.endpoints.length, store)
  counts : store.semanticEndpoints.entries.length = store.endpoints.length

/-- Every vector of the store is one of an operation that it lists. -/
def NoStaleRow (store : Store) : Prop :=
  ∀ operationId blob, store.semanticEndpoints.get operationId = some blob →
    ∃ row ∈ store.endpoints, row.operationId = operationId

theorem get_eq_some_iff (vectors : Vectors) (operationId : String) (blob : List UInt8) :
    vectors.get operationId = some blob ↔ (operationId, blob) ∈ vectors.entries :=
  lookup_eq_some_iff_mem vectors.distinct operationId blob

/-- What a run that goes through leaves in the table. -/
theorem populateOne_ok {store after : Store} {count : ℕ}
    (h : populateOne embed dimension path store = (.ok count, after)) :
    after.endpoints = store.endpoints ∧
    ∃ inserted : List (String × List UInt8),
      after.semanticEndpoints.entries = store.semanticEndpoints.entries.filter
        (fun e => e.1 ∉ store.endpoints.map EndpointRow.operationId) ++ inserted ∧
      List.Forall₂ (Indexes embed) store.endpoints inserted ∧
      ∀ e ∈ inserted, e.2.length = 4 * dimension := by
  unfold populateOne at h
  obtain ⟨hresult, rfl⟩ := Prod.mk.inj h
  refine ⟨rfl, ?_⟩
  have hok : (populateRows embed dimension path store.endpoints store.semanticEndpoints).1 =
      .ok () := by
    cases hrun : (populateRows embed dimension path store.endpoints store.semanticEndpoints).1 with
    | ok u => rfl
    | error err =>
      rw [hrun] at hresult
      contradiction
  exact populateRows_ok embed dimension path store.distinct hok

theorem indexed_of_noStaleRow {store after : Store} {count : ℕ}
    (h : populateOne embed dimension path store = (.ok count, after)) (hstale : NoStaleRow store) :
    Indexed embed dimension path after := by
  obtain ⟨hendpoints, inserted, hentries, hindexes, hlengths⟩ :=
    populateOne_ok embed dimension path h
  have hnone : store.semanticEndpoints.entries.filter
      (fun e => e.1 ∉ store.endpoints.map EndpointRow.operationId) = [] := by
    rw [List.filter_eq_nil_iff]
    intro e he
    obtain ⟨row, hrow, hid⟩ := hstale e.1 e.2 ((get_eq_some_iff _ _ _).mpr he)
    simpa using ⟨row, hrow, hid⟩
  rw [hnone, List.nil_append] at hentries
  rw [← hendpoints] at hindexes
  refine ⟨?_, ?_, ?_⟩
  · intro operationId blob
    rw [get_eq_some_iff, hentries, mem_inserted_iff embed hindexes]
  · have hok := populateRows_succeeds embed dimension path hindexes hlengths
      after.semanticEndpoints
    obtain ⟨inserted', hentries', hindexes', -⟩ :=
      populateRows_ok embed dimension path after.distinct hok
    have hvisited : after.semanticEndpoints.entries.filter
        (fun e => e.1 ∉ after.endpoints.map EndpointRow.operationId) = [] := by
      rw [hentries, List.filter_eq_nil_iff]
      intro e he
      obtain ⟨row, hrow, hid, -⟩ := (mem_inserted_iff embed hindexes e).mp he
      simpa using ⟨row, hrow, hid.symm⟩
    have hsame : inserted' = inserted := by
      apply List.ext_get
      · rw [← hindexes'.length_eq, hindexes.length_eq]
      · intro i hi hi'
        have hrow : i < after.endpoints.length := hindexes.length_eq ▸ hi'
        exact (hindexes'.get hrow hi).unique embed (hindexes.get hrow hi')
    rw [hvisited, List.nil_append, hsame, ← hentries] at hentries'
    unfold populateOne
    dsimp only
    rw [hok, Map.ext hentries']
    rfl
  · rw [hentries, hindexes.length_eq]

theorem noStaleRow_of_indexed {store after : Store} {count : ℕ}
    (h : populateOne embed dimension path store = (.ok count, after))
    (hindexed : Indexed embed dimension path after) : NoStaleRow store := by
  obtain ⟨hendpoints, inserted, hentries, -⟩ := populateOne_ok embed dimension path h
  intro operationId blob hget
  by_contra hnone
  have hkept : (operationId, blob) ∈ after.semanticEndpoints.entries := by
    rw [hentries]
    refine List.mem_append_left _ (List.mem_filter.mpr ⟨(get_eq_some_iff _ _ _).mp hget, ?_⟩)
    simpa using hnone
  obtain ⟨row, hrow, hid, -⟩ :=
    (hindexed.rows operationId blob).mp ((get_eq_some_iff _ _ _).mpr hkept)
  rw [hendpoints] at hrow
  exact hnone ⟨row, hrow, hid.symm⟩

/-- The check after a run only looks for operations without a vector: it never
reports a row that was left over. -/
theorem missingOperationIds_after (store after : Store) (count : ℕ)
    (h : populateOne embed dimension path store = (.ok count, after)) :
    missingOperationIds after = [] := by
  obtain ⟨hendpoints, inserted, hentries, hindexes, -⟩ := populateOne_ok embed dimension path h
  rw [← hendpoints] at hindexes
  unfold missingOperationIds
  rw [List.filter_eq_nil_iff]
  intro operationId hid
  obtain ⟨row, hrow, rfl⟩ := List.mem_map.mp hid
  obtain ⟨i, hi, rfl⟩ := List.mem_iff_getElem.mp hrow
  have hi' : i < inserted.length := hindexes.length_eq ▸ hi
  have hentry : (after.endpoints[i].operationId, inserted[i].2) ∈
      after.semanticEndpoints.entries := by
    rw [hentries]
    refine List.mem_append_right _ ?_
    have hkey := (hindexes.get hi hi').1
    simp only [List.get_eq_getElem] at hkey
    rw [← hkey]
    exact List.getElem_mem hi'
  simp only [(get_eq_some_iff _ _ _).mpr hentry, reduceCtorEq, decide_false, not_false_eq_true,
    Bool.false_eq_true]

/-- A run that goes through leaves the table as it should be exactly when the
store had no vector of an operation that it does not list. -/
theorem populateOne_indexed_iff (store after : Store) (count : ℕ)
    (h : populateOne embed dimension path store = (.ok count, after)) :
    Indexed embed dimension path after ↔ NoStaleRow store :=
  ⟨noStaleRow_of_indexed embed dimension path h, indexed_of_noStaleRow embed dimension path h⟩

end Populate

def sampleRow : EndpointRow := ⟨"sp_who", "/sys/sp_who", "POST", some "a summary", none⟩

/-- A store of one operation, with the given vectors. -/
def sampleStore (vectors : Vectors) : Store := ⟨[sampleRow], vectors, by decide⟩

/-- Three operations, with texts of different lengths. -/
def sampleRows : List EndpointRow :=
  [sampleRow, ⟨"sp_help", "/sys/sp_help", "POST", some "a longer summary", none⟩,
    ⟨"sp_lock", "/sys/sp_lock", "POST", some "a summary", none⟩]

/-- A model that knows the length of a text only. -/
def lengthModel (text : String) : Except String (List UInt32) :=
  .ok [UInt32.ofNat text.toList.length]

def lengthVectors : Vectors :=
  ((Map.empty.insert "sp_who" [26, 0, 0, 0]).insert "sp_help" [34, 0, 0, 0]).insert "sp_lock"
    [27, 0, 0, 0]

/-- One vector is replaced, the others were missing. -/
theorem populateOne_indexed_iff_sample :
    Indexed lengthModel 1 "store.db" ⟨sampleRows, lengthVectors, by decide⟩ ↔
      NoStaleRow ⟨sampleRows, Map.empty.insert "sp_who" [1, 2, 3, 4], by decide⟩ :=
  populateOne_indexed_iff lengthModel 1 "store.db"
    ⟨sampleRows, Map.empty.insert "sp_who" [1, 2, 3, 4], by decide⟩
    ⟨sampleRows, lengthVectors, by decide⟩ 3 rfl

/-- The vector of an operation that is gone is still there after a run. -/
theorem not_indexed_stale_row :
    ¬ ∀ (embed : String → Except String (List UInt32)) (dimension : ℕ) (path : String)
        (store after : Store) (count : ℕ),
      populateOne embed dimension path store = (.ok count, after) →
        Indexed embed dimension path after := by
  intro h
  have hindexed := h (fun _ => .ok [0]) 1 "store.db"
    (sampleStore (Map.empty.insert "sp_help" [1, 2, 3, 4]))
    (sampleStore ((Map.empty.insert "sp_help" [1, 2, 3, 4]).insert "sp_who" [0, 0, 0, 0])) 1 rfl
  have hcounts := hindexed.counts
  contradiction

end SqlServerMcp.PopulateEmbeddings
