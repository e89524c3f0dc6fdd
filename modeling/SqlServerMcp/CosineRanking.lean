import Mathlib.Analysis.InnerProductSpace.PiL2
import SqlServerMcp.DataStore
import SqlServerMcp.UnitVectors

/-!
What the order of search results means. The vectors in the store are those of the
operations' texts and of about unit length, so results that come nearest first are
also the ones most similar to the query by the cosine of the angle, within the
errors of the lengths and of the distances.
-/
namespace SqlServerMcp.CosineRanking

open AssocMap DataStore NearestNeighbours PopulateEmbeddings UnitVectors

section Numbers

/-- The rational number of a finite binary32 number. -/
def value (bits : UInt32) : ℚ :=
  let sign : ℚ := if bits.toNat / 2 ^ 31 = 0 then 1 else -1
  let exponent : ℕ := bits.toNat / 2 ^ 23 % 2 ^ 8
  let fraction : ℕ := bits.toNat % 2 ^ 23
  if exponent = 0 then sign * fraction * 2 ^ (-149 : ℤ)
  else sign * (2 ^ 23 + fraction) * 2 ^ ((exponent : ℤ) - 150)

def ofLeBytes (a b c d : UInt8) : UInt32 :=
  UInt32.ofNat (a.toNat + 2 ^ 8 * b.toNat + 2 ^ 16 * c.toNat + 2 ^ 24 * d.toNat)

/-- The numbers of a blob, four bytes each. -/
def vectorOfLeBytes : List UInt8 → List UInt32
  | a :: b :: c :: d :: rest => ofLeBytes a b c d :: vectorOfLeBytes rest
  | _ => []

theorem ofLeBytes_leBytes (bits : UInt32) :
    ofLeBytes bits.toUInt8 (bits >>> 8).toUInt8 (bits >>> 16).toUInt8 (bits >>> 24).toUInt8 =
      bits := by
  have hbound := bits.toNat_lt
  have hsplit : bits.toNat % 2 ^ 8 + 2 ^ 8 * (bits.toNat / 2 ^ 8 % 2 ^ 8) +
      2 ^ 16 * (bits.toNat / 2 ^ 16 % 2 ^ 8) + 2 ^ 24 * (bits.toNat / 2 ^ 24 % 2 ^ 8) =
        bits.toNat := by omega
  have hbytes : bits.toUInt8.toNat + 2 ^ 8 * (bits >>> 8).toUInt8.toNat +
      2 ^ 16 * (bits >>> 16).toUInt8.toNat + 2 ^ 24 * (bits >>> 24).toUInt8.toNat =
        bits.toNat := by
    simpa [Nat.shiftRight_eq_div_pow] using hsplit
  rw [ofLeBytes, hbytes, UInt32.ofNat_toNat]

/-- A stored vector is read as it was written. -/
theorem vectorOfLeBytes_vectorToLeBytes (vector : List UInt32) :
    vectorOfLeBytes (vectorToLeBytes vector) = vector := by
  induction vector with
  | nil => rfl
  | cons bits rest ih =>
    have hcons : vectorToLeBytes (bits :: rest) = leBytes bits ++ vectorToLeBytes rest := rfl
    rw [hcons]
    show ofLeBytes _ _ _ _ :: vectorOfLeBytes (vectorToLeBytes rest) = bits :: rest
    rw [ofLeBytes_leBytes, ih]

end Numbers

section Search

variable (dimension : ℕ)

/-- A vector as a point of the space that the model embeds texts in. -/
noncomputable def point (vector : List UInt32) : EuclideanSpace ℝ (Fin dimension) :=
  WithLp.toLp 2 fun i => ((value (vector.getD i 0) : ℚ) : ℝ)

variable (embed : String → Except String (List UInt32))

/-- Vectors of the table's length, and of length one up to an error. -/
def Normalized (ε : ℝ) : Prop :=
  ∀ text vector, embed text = .ok vector →
    vector.length = dimension ∧ NearUnit ε (point dimension vector)

/-- Distances of normalized vectors are the Euclidean ones up to an error. -/
def Euclidean (distance : List UInt8 → List UInt8 → ℝ) (ε δ : ℝ) : Prop :=
  ∀ a b : List UInt32, a.length = dimension → b.length = dimension →
    NearUnit ε (point dimension a) → NearUnit ε (point dimension b) →
    |distance (vectorToLeBytes a) (vectorToLeBytes b) - ‖point dimension a - point dimension b‖| ≤ δ

def textVector (text : String) : List UInt32 :=
  match embed text with
  | .ok vector => vector
  | .error _ => []

/-- The similarity of an operation to a query. -/
noncomputable def similarity (query : List UInt32) (row : StoredEndpoint) : ℝ :=
  inner ℝ (point dimension query) (point dimension (textVector embed row.text))

variable {dimension embed} {distance : List UInt8 → List UInt8 → ℝ} {ε δ : ℝ}

/-- Every operation of an indexed store has a vector. -/
theorem exists_vector_of_populateOne {path : String} {before after : Store} {count : ℕ}
    (h : populateOne embed dimension path before = (.ok count, after)) {row : EndpointRow}
    (hrow : row ∈ after.endpoints) : ∃ vector, embed row.text = .ok vector := by
  obtain ⟨hsame, inserted, -, hindexes, -⟩ := populateOne_ok embed dimension path h
  rw [hsame] at hrow
  obtain ⟨i, hi, rfl⟩ := List.getElem_of_mem hrow
  obtain ⟨-, vector, hvector, -⟩ := hindexes.get hi (hindexes.length_eq ▸ hi)
  exact ⟨vector, hvector⟩

theorem similarity_le_of_distance_le (hε : ε ≤ 1) (hnormalized : Normalized dimension embed ε)
    (hdistance : Euclidean dimension distance ε δ) {queryText : String} {query : List UInt32}
    (hquery : embed queryText = .ok query) {a b : StoredEndpoint}
    (ha : ∃ vector, embed a.text = .ok vector) (hb : ∃ vector, embed b.text = .ok vector)
    (h : distance (vectorToLeBytes query) (indexedVector embed a) ≤
      distance (vectorToLeBytes query) (indexedVector embed b)) :
    similarity dimension embed query b ≤ similarity dimension embed query a + slack ε δ := by
  obtain ⟨va, hva⟩ := ha
  obtain ⟨vb, hvb⟩ := hb
  obtain ⟨hqlength, hq⟩ := hnormalized queryText query hquery
  obtain ⟨halength, hanear⟩ := hnormalized a.text va hva
  obtain ⟨hblength, hbnear⟩ := hnormalized b.text vb hvb
  simp only [indexedVector, hva, hvb] at h
  simp only [similarity, textVector, hva, hvb]
  exact inner_le_of_measured_le hε hq hanear hbnear
    (hdistance query va hqlength halength hq hanear)
    (hdistance query vb hqlength hblength hq hbnear) h

/-- After an indexing run the results of a search come in the order of their
similarity to the query, and nothing that is more similar is missing, within the
errors of the lengths and the distances. -/
theorem search_by_cosine (path : String) (before : Store) (count : ℕ) (tables : Tables)
    (queryText : String) (query : List UInt32) (limit : ℕ)
    (chosen left : List (String × List UInt8)) (found : List (StoredEndpoint × ℝ))
    (hpopulate : populateOne embed dimension path before = (.ok count, tables.store))
    (hstale : NoStaleRow before) (hε : ε ≤ 1) (hnormalized : Normalized dimension embed ε)
    (hdistance : Euclidean dimension distance ε δ) (hquery : embed queryText = .ok query)
    (h : SearchEndpoints distance tables (vectorToLeBytes query) limit chosen left found) :
    found.Pairwise (fun a b => similarity dimension embed query b.1 ≤
      similarity dimension embed query a.1 + slack ε δ) ∧
    ∃ missed, (found.map Prod.fst ++ missed).Perm tables.endpoints ∧
      found.length = min limit tables.endpoints.length ∧
      ∀ a ∈ found, ∀ b ∈ missed, similarity dimension embed query b ≤
        similarity dimension embed query a.1 + slack ε δ := by
  have hvector : ∀ row ∈ tables.endpoints, ∃ vector, embed row.text = .ok vector :=
    fun row hrow => exists_vector_of_populateOne hpopulate
      (List.mem_map_of_mem (f := StoredEndpoint.toEndpointRow) hrow)
  obtain ⟨⟨missed, hnearest⟩, hdistances⟩ :=
    search_populated embed dimension path before count tables (vectorToLeBytes query) limit chosen
      left found hpopulate hstale h
  have hfound : ∀ f ∈ found, f.1 ∈ tables.endpoints := fun f hf =>
    hnearest.mem_rows (List.mem_map_of_mem (f := Prod.fst) hf)
  have hmissed : ∀ row ∈ missed, row ∈ tables.endpoints := fun row hrow =>
    hnearest.perm.subset (List.mem_append_right _ hrow)
  refine ⟨?_, missed, hnearest.perm, by simpa using hnearest.length, fun a ha b hb => ?_⟩
  · refine h.ordered.imp_of_mem fun {a b} ha hb hle => ?_
    rw [hdistances a ha, hdistances b hb] at hle
    exact similarity_le_of_distance_le hε hnormalized hdistance hquery (hvector a.1 (hfound a ha))
      (hvector b.1 (hfound b hb)) hle
  · exact similarity_le_of_distance_le hε hnormalized hdistance hquery (hvector a.1 (hfound a ha))
      (hvector b (hmissed b hb)) (hnearest.nearer a.1 (List.mem_map_of_mem (f := Prod.fst) ha) b hb)

end Search

/-! A store of three operations, under a model that has three directions. -/

def one : UInt32 := 0x3F800000

def minusOne : UInt32 := 0xBF800000

def direction (length : ℕ) : List UInt32 :=
  if length = 27 then [0, one] else if length = 34 then [minusOne, 0] else [one, 0]

def directionModel (text : String) : Except String (List UInt32) :=
  .ok (direction text.toList.length)

def directionVectors : Vectors :=
  ((Map.empty.insert "sp_who" (vectorToLeBytes [one, 0])).insert "sp_help"
    (vectorToLeBytes [minusOne, 0])).insert "sp_lock" (vectorToLeBytes [0, one])

noncomputable def exactDistance (a b : List UInt8) : ℝ :=
  ‖point 2 (vectorOfLeBytes a) - point 2 (vectorOfLeBytes b)‖

theorem value_zero : value 0 = 0 := by
  have hfields : (0 : UInt32).toNat / 2 ^ 31 = 0 ∧ (0 : UInt32).toNat / 2 ^ 23 % 2 ^ 8 = 0 ∧
      (0 : UInt32).toNat % 2 ^ 23 = 0 := by decide
  simp only [value, hfields]
  norm_num

theorem value_one : value one = 1 := by
  have hfields : one.toNat / 2 ^ 31 = 0 ∧ one.toNat / 2 ^ 23 % 2 ^ 8 = 127 ∧
      one.toNat % 2 ^ 23 = 0 := by decide
  simp only [value, hfields]
  norm_num

theorem value_minusOne : value minusOne = -1 := by
  have hfields : minusOne.toNat / 2 ^ 31 = 1 ∧ minusOne.toNat / 2 ^ 23 % 2 ^ 8 = 127 ∧
      minusOne.toNat % 2 ^ 23 = 0 := by decide
  simp only [value, hfields]
  norm_num

theorem norm_direction (length : ℕ) : ‖point 2 (direction length)‖ = 1 := by
  unfold direction
  split
  · simp [point, EuclideanSpace.norm_eq, value_zero, value_one]
  · split
    · simp [point, EuclideanSpace.norm_eq, value_zero, value_minusOne]
    · simp [point, EuclideanSpace.norm_eq, value_zero, value_one]

theorem directionModel_normalized : Normalized 2 directionModel 0 := by
  intro text vector h
  obtain rfl := Except.ok.inj h
  refine ⟨?_, by simp [NearUnit, norm_direction]⟩
  unfold direction
  split
  · rfl
  · split <;> rfl

theorem exactDistance_euclidean : Euclidean 2 exactDistance 0 0 := by
  intro a b _ _ _ _
  simp [exactDistance, vectorOfLeBytes_vectorToLeBytes]

/-- The two operations that are found of the three. -/
noncomputable def twoFound : List (StoredEndpoint × ℝ) :=
  searchEndpoints exactDistance (sampleTables directionVectors) (vectorToLeBytes [one, 0]) 2

theorem search_by_cosine_two :
    twoFound.Pairwise (fun a b => similarity 2 directionModel [one, 0] b.1 ≤
      similarity 2 directionModel [one, 0] a.1 + slack 0 0) ∧
    ∃ missed, (twoFound.map Prod.fst ++ missed).Perm (sampleTables directionVectors).endpoints ∧
      twoFound.length = min 2 (sampleTables directionVectors).endpoints.length ∧
      ∀ a ∈ twoFound, ∀ b ∈ missed, similarity 2 directionModel [one, 0] b ≤
        similarity 2 directionModel [one, 0] a.1 + slack 0 0 := by
  have hanswers : ∃ chosen left, SearchEndpoints exactDistance (sampleTables directionVectors)
      (vectorToLeBytes [one, 0]) 2 chosen left twoFound := searchEndpoints_answers _ _ _
  obtain ⟨chosen, left, hanswers⟩ := hanswers
  exact search_by_cosine "store.db"
    ⟨sampleRows, Map.empty.insert "sp_who" [1, 2, 3, 4, 5, 6, 7, 8], by decide⟩ 3 _
    "who is there" [one, 0] 2 chosen left twoFound rfl
    (by simp [NoStaleRow, sampleRows, sampleRow, Map.get_insert]) zero_le_one
    directionModel_normalized exactDistance_euclidean rfl hanswers

end SqlServerMcp.CosineRanking
