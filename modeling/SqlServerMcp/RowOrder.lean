import SqlServerMcp.Document

/-!
The order of the extracted rows. The extraction lists objects in no order, so
the document must not depend on it. What an operation shows depends on the rows
of its object in any order, and operations that rank equally have one schema and
name, which only different databases can list.
-/
namespace SqlServerMcp.RowOrder

open AssocMap Document Generator Grouping JsonValue Operations Ranking

/-- The same rows in another order. -/
structure Permuted (dump dump' : Dump) : Prop where
  objects : dump.objects.Perm dump'.objects
  params : dump.params.Perm dump'.params
  resultsets : dump.resultsets.Perm dump'.resultsets
  fmtonly : dump.fmtonly = dump'.fmtonly

/-- No two parameters of an object have one ordinal, and no two of its named
columns do. -/
structure DistinctOrdinals (dump : Dump) : Prop where
  params : ∀ object, ((paramsIn dump object).map ParamRow.ordinal).Nodup
  columns : ∀ object,
    (((resultsetsIn dump object).filter ResultsetRow.named).map ordinalOf).Nodup

/-- The rows about the result set of an object have one status, and one error
where the status is unknown. -/
def OneStatus (dump : Dump) : Prop :=
  ∀ object, ∀ row ∈ resultsetsIn dump object, ∀ row' ∈ resultsetsIn dump object,
    row.resultSetStatus = row'.resultSetStatus ∧
      (row.resultSetStatus = some .unknown → row.errorMessage = row'.errorMessage)

/-! What is known of one object. -/

/-- Evidence that differs in the order of described rows only. -/
inductive Same : ResultSet → ResultSet → Prop where
  | described {rows rows' : List ResultsetRow} (hperm : rows.Perm rows')
      (hordinals : ((rows.filter ResultsetRow.named).map ordinalOf).Nodup) :
      Same (.described rows) (.described rows')
  | refl (r : ResultSet) : Same r r

theorem Same.hasColumns_eq {r r' : ResultSet} (h : Same r r') : r.hasColumns = r'.hasColumns := by
  cases h <;> rfl

theorem Same.buildResponseSchema_eq {r r' : ResultSet} (h : Same r r') :
    buildResponseSchema r = buildResponseSchema r' := by
  cases h with
  | @described rows rows' hperm hordinals =>
    have hcolumns : describedColumns rows = describedColumns rows' :=
      filter_sortOn_eq_of_perm ordinalOf hperm ResultsetRow.named hordinals
    simp only [buildResponseSchema, describedProperties, hcolumns]
  | refl => rfl

theorem rank_filter_of_perm {params params' : List ParamRow} (hperm : params.Perm params')
    (hordinals : (params.map ParamRow.ordinal).Nodup) (p : ParamRow → Bool) :
    rank ParamRow.ordinal (params.filter p) = rank ParamRow.ordinal (params'.filter p) :=
  rank_eq_of_perm _ (hperm.filter p) (hordinals.sublist (List.filter_sublist.map _))

theorem buildRequestSchema_of_perm {params params' : List ParamRow} (hperm : params.Perm params')
    (hordinals : (params.map ParamRow.ordinal).Nodup) (databases : List String) :
    buildRequestSchema params databases = buildRequestSchema params' databases := by
  have hinputs : inputParams params = inputParams params' := rank_filter_of_perm hperm hordinals _
  unfold buildRequestSchema requestProperties requiredNames
  rw [hinputs]

theorem buildOutputParamSchema_of_perm {params params' : List ParamRow}
    (hperm : params.Perm params') (hordinals : (params.map ParamRow.ordinal).Nodup) :
    buildOutputParamSchema params = buildOutputParamSchema params' := by
  have houtputs : outputParams params = outputParams params' :=
    rank_filter_of_perm hperm hordinals _
  unfold buildOutputParamSchema
  rw [houtputs]

/-- The first of rows that agree is as good as any. -/
theorem head_bind_of_perm {A B : Type*} {l l' : List A} (hperm : l.Perm l') (f : A → Option B)
    (h : ∀ a ∈ l, ∀ b ∈ l, f a = f b) : l.head?.bind f = l'.head?.bind f := by
  cases l with
  | nil => rw [List.nil_perm.mp hperm]
  | cons a rest =>
    cases l' with
    | nil => exact absurd hperm.symm (List.not_perm_nil_cons a rest)
    | cons b rest' =>
      exact h a List.mem_cons_self b (hperm.mem_iff.mpr List.mem_cons_self)

section OneDump

variable {dump dump' : Dump}

theorem Permuted.paramsIn (h : Permuted dump dump') (object : ObjectKey) :
    (paramsIn dump object).Perm (paramsIn dump' object) :=
  (h.params.filter _).map _

theorem Permuted.resultsetsIn (h : Permuted dump dump') (object : ObjectKey) :
    (resultsetsIn dump object).Perm (resultsetsIn dump' object) :=
  h.resultsets.filter _

theorem Permuted.evidence (h : Permuted dump dump') (hordinals : DistinctOrdinals dump)
    (hstatus : OneStatus dump) (object : ObjectKey) :
    (evidence dump object).1 = (evidence dump' object).1 ∧
      Same (evidence dump object).2 (evidence dump' object).2 := by
  have hrows := h.resultsetsIn object
  have hhead : (Operations.resultsetsIn dump object).head?.bind ResultsetRow.resultSetStatus =
      (Operations.resultsetsIn dump' object).head?.bind ResultsetRow.resultSetStatus :=
    head_bind_of_perm hrows _ fun row hrow row' hrow' => (hstatus object row hrow row' hrow').1
  have hany : (Operations.resultsetsIn dump object).any ResultsetRow.named =
      (Operations.resultsetsIn dump' object).any ResultsetRow.named := hrows.any_eq
  have herror : (Operations.resultsetsIn dump object).head?.bind ResultsetRow.resultSetStatus =
      some .unknown →
        (Operations.resultsetsIn dump object).head?.bind ResultsetRow.errorMessage =
          (Operations.resultsetsIn dump' object).head?.bind ResultsetRow.errorMessage := by
    intro hunknown
    obtain ⟨first, hfirst, hfirstStatus⟩ := Option.bind_eq_some_iff.mp hunknown
    have hmem := List.mem_of_head? hfirst
    apply head_bind_of_perm hrows
    intro row hrow row' hrow'
    apply (hstatus object row hrow row' hrow').2
    rw [(hstatus object row hrow first hmem).1, hfirstStatus]
  unfold Operations.evidence candidateResultsetTier
  simp only [Option.getD_some, ← h.fmtonly, ← hhead, ← hany]
  split
  · exact ⟨rfl, Same.described hrows (hordinals.columns object)⟩
  · split
    · exact ⟨rfl, Same.refl _⟩
    · split
      · exact ⟨rfl, Same.refl _⟩
      · split
        next hunknown =>
          rw [herror hunknown]
          exact ⟨rfl, Same.refl _⟩
        next => exact ⟨rfl, Same.refl _⟩

end OneDump

/-! What the databases know of one object together. -/

theorem firstNonempty_perm {A : Type*} {l l' : List (List A)} (h : List.Forall₂ List.Perm l l') :
    (firstNonempty l).Perm (firstNonempty l') := by
  induction h with
  | nil => exact List.Perm.refl _
  | @cons c c' rest rest' hc hrest ih =>
    cases c with
    | nil =>
      rw [List.nil_perm.mp hc]
      exact ih
    | cons a as =>
      cases c' with
      | nil => exact absurd hc.symm (List.not_perm_nil_cons a as)
      | cons b bs => exact hc

section TwoRuns

variable {dumps dumps' : Database → Dump}

theorem lists_iff (h : ∀ db, Permuted (dumps db) (dumps' db)) (db : Database) (k : OperationKey) :
    ListedIn dumps db k ↔ ListedIn dumps' db k := by
  unfold ListedIn
  simp only [(h db).objects.mem_iff]

theorem listsOnce_of_permuted (h : ∀ db, Permuted (dumps db) (dumps' db))
    (honce : ListsOnce dumps) : ListsOnce dumps' := fun db =>
  ((h db).objects.map ObjectRow.object).nodup_iff.mp (honce db)

theorem holders_eq (h : ∀ db, Permuted (dumps db) (dumps' db)) (k : OperationKey) :
    holders dumps k = holders dumps' k := by
  unfold holders
  simp only [lists_iff h]

theorem mergedParams_perm (h : ∀ db, Permuted (dumps db) (dumps' db)) (k : OperationKey) :
    (mergedParams dumps k).Perm (mergedParams dumps' k) := by
  unfold mergedParams
  rw [holders_eq h]
  apply firstNonempty_perm
  rw [List.forall₂_map_left_iff, List.forall₂_map_right_iff]
  exact List.forall₂_same.mpr fun db _ => (h db).paramsIn k.object

theorem mergedParams_ordinals (hordinals : ∀ db, DistinctOrdinals (dumps db)) {k : OperationKey}
    (hlisted : ∃ db, ListedIn dumps db k) :
    ((mergedParams dumps k).map ParamRow.ordinal).Nodup := by
  obtain ⟨db, _, heq⟩ := exists_mergedParams dumps hlisted
  rw [heq]
  exact (hordinals db).params k.object

theorem mergedResultset_same (h : ∀ db, Permuted (dumps db) (dumps' db))
    (hordinals : ∀ db, DistinctOrdinals (dumps db)) (hstatus : ∀ db, OneStatus (dumps db))
    (k : OperationKey) : Same (mergedResultset dumps k) (mergedResultset dumps' k) := by
  have hevidence := fun db => (h db).evidence (hordinals db) (hstatus db) k.object
  unfold mergedResultset
  simp only [← holders_eq h, ← (hevidence _).1]
  exact choose_rel _ _ Same _ (fun db _ => (hevidence db).2) (-1) (Same.refl _)

theorem mergedDatabases_eq (h : ∀ db, Permuted (dumps db) (dumps' db)) (honce : ListsOnce dumps)
    (k : OperationKey) : mergedDatabases dumps k = mergedDatabases dumps' k := by
  have hsorted := mergedDatabases_pairwise honce k
  have hsorted' := mergedDatabases_pairwise (listsOnce_of_permuted h honce) k
  refine eq_of_pairwise_lt id ?_ hsorted hsorted'
  refine (List.perm_ext_iff_of_nodup (hsorted.imp ne_of_lt) (hsorted'.imp ne_of_lt)).mpr ?_
  intro name
  simp only [mem_mergedDatabases, lists_iff h]

end TwoRuns

/-- What the ranking and the document read of an operation. -/
structure Shown where
  key : OperationKey
  completeness : ℕ
  post : PostOperation
  components : Fields

def shown (op : Operation) : Shown where
  key := op.key
  completeness := completeness op.hasParams op.hasColumns
  post := postOperation op
  components := componentsOf op

/-- The same object is shown alike in both runs. -/
theorem shown_operationFor {dumps dumps' : Database → Dump}
    (h : ∀ db, Permuted (dumps db) (dumps' db)) (honce : ListsOnce dumps)
    (hordinals : ∀ db, DistinctOrdinals (dumps db)) (hstatus : ∀ db, OneStatus (dumps db))
    {k : OperationKey} (hlisted : ∃ db, ListedIn dumps db k) :
    (operationFor dumps k).map shown = (operationFor dumps' k).map shown := by
  have hparams := mergedParams_perm h k
  have hnodup := mergedParams_ordinals hordinals hlisted
  have hresultset := mergedResultset_same h hordinals hstatus k
  have hundocumented : Undocumented dumps k ↔ Undocumented dumps' k := by
    unfold Undocumented
    rw [hresultset.hasColumns_eq, ← List.length_eq_zero_iff, hparams.length_eq,
      List.length_eq_zero_iff]
  rcases operationFor_eq dumps k with ⟨hdrop, heq⟩ | ⟨hkeep, heq⟩
  · have hnone := (operationFor_eq_none_iff dumps' k).mpr (hundocumented.mp hdrop)
    rw [heq, hnone]
  · rcases operationFor_eq dumps' k with ⟨hdrop, _⟩ | ⟨_, heq'⟩
    · exact absurd (hundocumented.mpr hdrop) hkeep
    · have hany : (mergedParams dumps k).any (fun p => !p.isOutput) =
          (mergedParams dumps' k).any fun p => !p.isOutput := hparams.any_eq
      rw [heq, heq', Option.map_some, Option.map_some]
      simp only [shown, Operation.key, postOperation, componentsOf, requestKey, outputParamsKey,
        operationId, mergedDatabases_eq h honce, hany, hresultset.hasColumns_eq,
        hresultset.buildResponseSchema_eq, buildRequestSchema_of_perm hparams hnodup,
        buildOutputParamSchema_of_perm hparams hnodup]

/-! The order of the operations. -/

/-- The place of the first database that lists an object. -/
def firstPriority (dumps : Database → Dump) (k : OperationKey) : ℕ :=
  ((holders dumps k).head?.map Database.priority).getD 0

theorem firstPriority_le {dumps : Database → Dump} {db : Database} {k : OperationKey}
    (h : ListedIn dumps db k) : firstPriority dumps k ≤ db.priority := by
  have hmem := (mem_holders dumps db k).mpr h
  have hsorted := holders_pairwise dumps k
  unfold firstPriority
  cases hholders : holders dumps k with
  | nil => exact Nat.zero_le _
  | cons first rest =>
    rw [hholders] at hmem hsorted
    show first.priority ≤ db.priority
    rcases List.mem_cons.mp hmem with rfl | hrest
    · exact Nat.le_refl _
    · have hlt := (List.pairwise_cons.mp hsorted).1 db hrest
      omega

theorem exists_firstPriority {dumps : Database → Dump} {k : OperationKey}
    (h : ∃ db, ListedIn dumps db k) :
    ∃ db, ListedIn dumps db k ∧ firstPriority dumps k = db.priority := by
  obtain ⟨db, hdb⟩ := h
  obtain ⟨first, rest, hholders⟩ :=
    List.exists_cons_of_ne_nil (List.ne_nil_of_mem ((mem_holders dumps db k).mpr hdb))
  refine ⟨first, (mem_holders dumps first k).mp (by simp [hholders]), ?_⟩
  unfold firstPriority
  rw [hholders]
  rfl

/-- The first listing of a key is in the first database that lists it. -/
theorem firstPriority_of_first {dumps : Database → Dump} (honce : ListsOnce dumps)
    {x : Database × ObjectRow} (hx : x ∈ firsts (fun x => x.2.key) (listings dumps)) :
    firstPriority dumps x.2.key = x.1.priority := by
  have hlists : ∀ y ∈ listings dumps, ListedIn dumps y.1 y.2.key := fun y hy =>
    ⟨y.2, (mem_listings dumps y.1 y.2).mp hy, rfl⟩
  have hmem : x ∈ listings dumps := (firsts_sublist _ _).mem hx
  apply Nat.le_antisymm (firstPriority_le (hlists x hmem))
  obtain ⟨db, hdb, heq⟩ := exists_firstPriority ⟨x.1, hlists x hmem⟩
  rw [heq]
  obtain ⟨y, hy, hydb⟩ := List.mem_map.mp ((mem_listingsOf dumps db x.2.key).mpr hdb)
  have hhead : (listingsOf dumps x.2.key).head? = some x := head_filter_firsts _ hx
  have hsorted : (listingsOf dumps x.2.key).Pairwise _ := (listings_pairwise honce).filter _
  obtain ⟨rest, hrest⟩ := List.head?_eq_some_iff.mp hhead
  rw [hrest] at hy hsorted
  rw [← hydb]
  rcases List.mem_cons.mp hy with rfl | hlater
  · exact Nat.le_refl _
  · have hmemy : y ∈ listingsOf dumps x.2.key := by
      rw [hrest]
      exact List.mem_cons_of_mem x hlater
    have hlt := (List.pairwise_cons.mp hsorted).1 y hlater (object_of_mem_listingsOf hmemy).symm
    omega

/-- Operations of one schema and name stand in the order of their databases. -/
theorem operations_pairwise {dumps : Database → Dump} (honce : ListsOnce dumps) :
    (buildOperations dumps).1.Pairwise fun a b =>
      a.object = b.object → firstPriority dumps a.key < firstPriority dumps b.key := by
  have hfirsts : (firsts (fun x => x.2.key) (listings dumps)).Pairwise fun x y =>
      x.2.key.object = y.2.key.object →
        firstPriority dumps x.2.key < firstPriority dumps y.2.key := by
    refine List.Pairwise.imp_of_mem ?_
      ((listings_pairwise honce).sublist (firsts_sublist (fun x => x.2.key) (listings dumps)))
    intro x y hx hy hlt hobject
    rw [firstPriority_of_first honce hx, firstPriority_of_first honce hy]
    exact hlt hobject
  have hkeys : (keys (registry dumps).entries).Pairwise fun k k' =>
      k.object = k'.object → firstPriority dumps k < firstPriority dumps k' := by
    unfold registry
    rw [keys_gather]
    exact List.pairwise_map.mpr hfirsts
  exact List.pairwise_map.mp (hkeys.sublist (operations_keys_sublist dumps))

/-- The rank of an operation, from what is shown of it. -/
def rankOf (presence : OperationKey → ℕ) (s : Shown) : RankKey :=
  toLex (-(presence s.key : ℤ), toLex (s.completeness,
    toLex ((typeTiers.lookup s.key.typeDesc).getD 3, toLex (s.key.schemaName, s.key.name))))

theorem rankOf_shown (presence : OperationKey → ℕ) (op : Operation) :
    rankOf presence (shown op) = rankKey presence op := rfl

theorem object_eq_of_rankOf_eq {presence : OperationKey → ℕ} {s s' : Shown}
    (h : rankOf presence s = rankOf presence s') : s.key.object = s'.key.object :=
  (Prod.mk.inj (Prod.mk.inj (Prod.mk.inj h).2).2).2

/-- What is shown of the operations, sorted, is also sorted by the databases
among equal ranks, and that order has no ties left. -/
theorem map_shown_sortOn {dumps : Database → Dump} (honce : ListsOnce dumps)
    (presence : OperationKey → ℕ) :
    (sortOn (rankKey presence) (buildOperations dumps).1).map shown =
      sortOn (fun s => toLex (rankOf presence s, firstPriority dumps s.key))
        ((buildOperations dumps).1.map shown) ∧
    (((buildOperations dumps).1.map shown).map
      fun s => toLex (rankOf presence s, firstPriority dumps s.key)).Nodup := by
  have hties : ((buildOperations dumps).1.map shown).Pairwise fun s s' =>
      rankOf presence s = rankOf presence s' →
        firstPriority dumps s.key < firstPriority dumps s'.key := by
    apply List.pairwise_map.mpr
    refine (operations_pairwise honce).imp ?_
    intro a b hab hrank
    exact hab (object_eq_of_rankOf_eq hrank)
  constructor
  · rw [map_sortOn (rankKey presence) shown (rankOf presence) (rankOf_shown presence)]
    exact sortOn_eq_sortOn_tie _ _ hties
  · apply List.pairwise_map.mpr
    refine hties.imp ?_
    intro s s' hlt heq
    obtain ⟨hrank, hpriority⟩ := Prod.mk.inj heq
    have hpos := hlt hrank
    omega

theorem mem_map_shown (dumps : Database → Dump) (s : Shown) :
    s ∈ (buildOperations dumps).1.map shown ↔
      ∃ k, (∃ db, ListedIn dumps db k) ∧ (operationFor dumps k).map shown = some s := by
  simp only [List.mem_map, mem_operations_iff, Option.map_eq_some_iff]
  constructor
  · intro h
    obtain ⟨op, ⟨k, hlisted, hop⟩, heq⟩ := h
    exact ⟨k, hlisted, op, hop, heq⟩
  · intro h
    obtain ⟨k, hlisted, op, hop, heq⟩ := h
    exact ⟨op, ⟨k, hlisted, hop⟩, heq⟩

/-- The ranked operations show the same in the same order. -/
theorem shown_ranked_eq {dumps dumps' : Database → Dump}
    (h : ∀ db, Permuted (dumps db) (dumps' db)) (honce : ListsOnce dumps)
    (hordinals : ∀ db, DistinctOrdinals (dumps db)) (hstatus : ∀ db, OneStatus (dumps db))
    (presence : OperationKey → ℕ) :
    (sortOn (rankKey presence) (buildOperations dumps).1).map shown =
      (sortOn (rankKey presence) (buildOperations dumps').1).map shown := by
  have honce' := listsOnce_of_permuted h honce
  have hpriority : firstPriority dumps = firstPriority dumps' := by
    funext k
    unfold firstPriority
    rw [holders_eq h]
  obtain ⟨hsorted, hnodup⟩ := map_shown_sortOn honce presence
  obtain ⟨hsorted', hnodup'⟩ := map_shown_sortOn honce' presence
  rw [hsorted, hsorted', ← hpriority]
  refine sortOn_eq_of_perm _ ?_ hnodup
  refine (List.perm_ext_iff_of_nodup hnodup.of_map hnodup'.of_map).mpr ?_
  intro s
  rw [mem_map_shown, mem_map_shown]
  apply exists_congr
  intro k
  have hlisted : (∃ db, ListedIn dumps db k) ↔ ∃ db, ListedIn dumps' db k :=
    exists_congr fun db => lists_iff h db k
  rw [← hlisted]
  apply and_congr_right
  intro hk
  rw [shown_operationFor h honce hordinals hstatus hk]

/-! The versions that know an object. -/

/-- The same versions with the rows of their databases in another order. -/
def DataPermuted (data data' : DataRoot) : Prop :=
  List.Forall₂ (fun e e' => e.1 = e'.1 ∧ ∀ db, Permuted (e.2 db) (e'.2 db)) data.entries
    data'.entries

theorem Permuted.refl (dump : Dump) : Permuted dump dump :=
  ⟨List.Perm.refl _, List.Perm.refl _, List.Perm.refl _, rfl⟩

theorem DataPermuted.keys_eq {data data' : DataRoot} (h : DataPermuted data data') :
    keys data.entries = keys data'.entries := by
  unfold DataPermuted at h
  unfold keys
  generalize data.entries = entries at h
  generalize data'.entries = entries' at h
  induction h with
  | nil => rfl
  | cons hentry _ ih => rw [List.map_cons, List.map_cons, hentry.1, ih]

theorem DataPermuted.dumpsOf {data data' : DataRoot} (h : DataPermuted data data')
    (version : String) (db : Database) :
    Permuted (dumpsOf data version db) (dumpsOf data' version db) := by
  unfold DataPermuted at h
  unfold Document.dumpsOf Map.get
  generalize data.entries = entries at h
  generalize data'.entries = entries' at h
  induction h with
  | nil => exact Permuted.refl _
  | @cons e e' rest rest' hentry _ ih =>
    obtain ⟨name, dumps⟩ := e
    obtain ⟨name', dumps'⟩ := e'
    obtain ⟨rfl, hdumps⟩ : name = name' ∧ ∀ db, Permuted (dumps db) (dumps' db) := hentry
    rw [lookup_cons, lookup_cons]
    by_cases hversion : version = name
    · rw [if_pos hversion, if_pos hversion]
      exact hdumps db
    · rw [if_neg hversion, if_neg hversion]
      exact ih

theorem mem_occurrences (data : DataRoot) (version : String) (k : OperationKey) :
    (version, k) ∈ occurrences data ↔
      version ∈ keys data.entries ∧ ∃ db, ListedIn (dumpsOf data version) db k := by
  have hversion : version ∈ discoverVersions data ↔ version ∈ keys data.entries :=
    (sortOn_perm id _).mem_iff
  have hseen : k ∈ seenInVersion (dumpsOf data version) ↔
      ∃ db, ListedIn (dumpsOf data version) db k := by
    unfold seenInVersion ListedIn
    simp only [List.mem_dedup, List.mem_map, Prod.exists, mem_listings]
  rw [← hversion, ← hseen]
  unfold occurrences
  simp only [List.mem_flatMap, List.mem_map, Prod.mk.injEq]
  constructor
  · intro h
    obtain ⟨_, hmem, _, hkey, rfl, rfl⟩ := h
    exact ⟨hmem, hkey⟩
  · intro h
    obtain ⟨hmem, hkey⟩ := h
    exact ⟨version, hmem, k, hkey, rfl, rfl⟩

theorem foldl_insert_eq (l : List (String × OperationKey)) (versions : Finset String) :
    l.foldl (fun versions x => insert x.1 versions) versions =
      versions ∪ (l.map Prod.fst).toFinset := by
  induction l generalizing versions with
  | nil => simp
  | cons x rest ih =>
    rw [List.foldl_cons, ih, List.map_cons, List.toFinset_cons, Finset.insert_union,
      Finset.union_insert]

/-- Which versions know an object does not depend on the order of their rows. -/
theorem presenceCount_eq {data data' : DataRoot} (h : DataPermuted data data') (version : String) :
    presenceCount data version = presenceCount data' version := by
  have hmem : ∀ x, x ∈ occurrences data ↔ x ∈ occurrences data' := by
    intro x
    obtain ⟨v, k⟩ := x
    rw [mem_occurrences, mem_occurrences, h.keys_eq]
    simp only [lists_iff (h.dumpsOf v)]
  funext k
  have hkeys : k ∈ (occurrences data).map Prod.snd ↔ k ∈ (occurrences data').map Prod.snd := by
    simp only [List.mem_map, hmem]
  have hversions : (((occurrences data).filter fun x => x.2 = k).map Prod.fst).toFinset =
      (((occurrences data').filter fun x => x.2 = k).map Prod.fst).toFinset := by
    ext v
    simp only [List.mem_toFinset, List.mem_map, List.mem_filter, hmem]
  have hget : (computePresence data).get k = (computePresence data').get k := by
    unfold computePresence
    rw [get_gather, get_gather, foldl_insert_eq, foldl_insert_eq, hversions]
    simp only [hkeys]
  unfold presenceCount
  rw [hget]

/-! The document. -/

/-- The loop over the kept operations, from what is shown of them. -/
def emitShown (written : Written) (s : Shown) : Written :=
  let path := "/" ++ s.key.schemaName ++ "/" ++ s.key.name
  if path ∈ keys written.paths.entries then
    { written with pathCollisions := written.pathCollisions + 1 }
  else
    { written with
      paths := written.paths.insert path s.post
      schemas := s.components.foldl (fun schemas e => schemas.insert e.1 e.2) written.schemas }

theorem emitAll_eq_shown (kept : List Operation) :
    emitAll kept = (kept.map shown).foldl emitShown initial := by
  unfold emitAll
  rw [List.foldl_map]
  rfl

/-- The rows of an extraction may come in any order: where every database lists
a schema and name once, the ordinals of an object are distinct and the rows about
its result set have one status, the document is the same. -/
theorem main_eq_of_permuted (version : String) (data data' : DataRoot)
    (h : DataPermuted data data') (honce : ListsOnce (dumpsOf data version))
    (hordinals : ∀ db, DistinctOrdinals (dumpsOf data version db))
    (hstatus : ∀ db, OneStatus (dumpsOf data version db)) :
    (main version data).1 = (main version data').1 := by
  have hkept : (keptOperations version data).map shown =
      (keptOperations version data').map shown := by
    unfold keptOperations rankedOperations
    rw [List.map_take, List.map_take, presenceCount_eq h,
      shown_ranked_eq (h.dumpsOf version) honce hordinals hstatus]
  have hwritten : emitAll (keptOperations version data) =
      emitAll (keptOperations version data') := by
    rw [emitAll_eq_shown, emitAll_eq_shown, hkept]
  show documentOf version (keptOperations version data) =
    documentOf version (keptOperations version data')
  unfold documentOf
  rw [hwritten]

/-- The extraction of one version whose objects are all in one database. -/
def versionData (dump : Dump) : DataRoot :=
  Map.empty.insert "2022" fun db => if db = .master then dump else emptyDump

theorem dumpsOf_versionData (dump : Dump) (db : Database) :
    dumpsOf (versionData dump) "2022" db = if db = .master then dump else emptyDump := rfl

theorem versionData_permuted {dump dump' : Dump} (h : Permuted dump dump') :
    DataPermuted (versionData dump) (versionData dump') := by
  refine List.Forall₂.cons ⟨rfl, ?_⟩ List.Forall₂.nil
  intro db
  show Permuted (if db = .master then dump else emptyDump)
    (if db = .master then dump' else emptyDump)
  split
  · exact h
  · exact Permuted.refl _

/-- What holds of both dumps of a version holds of every database. -/
theorem forall_versionData {dump : Dump} {P : Dump → Prop} (hdump : P dump) (hempty : P emptyDump)
    (db : Database) : P (dumpsOf (versionData dump) "2022" db) := by
  rw [dumpsOf_versionData]
  split
  · exact hdump
  · exact hempty

theorem distinctOrdinals_emptyDump : DistinctOrdinals emptyDump :=
  ⟨fun _ => List.nodup_nil, fun _ => List.nodup_nil⟩

theorem oneStatus_emptyDump : OneStatus emptyDump := by
  intro object row hrow
  contradiction

def jobParam (parameterName : String) (ordinal : ℕ) (h : ordinal < 2 ^ 31) : ParamsRow where
  schemaName := "dbo"
  objectName := "sp_job"
  param :=
    { parameterName := some parameterName
      ordinal := ordinal
      dataType := "int"
      maxLength := none
      precision := none
      scale := none
      isOutput := false
      hasDefaultValue := false
      defaultValue := none
      ordinal_lt := h }

def jobDump : Dump where
  objects := [⟨"dbo", "sp_job", "SQL_STORED_PROCEDURE"⟩, ⟨"dbo", "sysjobs", "VIEW"⟩]
  params := [jobParam "@id" 1 firstOrdinal_lt, jobParam "@step" 2 secondOrdinal_lt]
  resultsets := []
  fmtonly := []

def relistedJobDump : Dump where
  objects := [⟨"dbo", "sysjobs", "VIEW"⟩, ⟨"dbo", "sp_job", "SQL_STORED_PROCEDURE"⟩]
  params := [jobParam "@step" 2 secondOrdinal_lt, jobParam "@id" 1 firstOrdinal_lt]
  resultsets := []
  fmtonly := []

theorem main_eq_of_permuted_job :
    (main "2022" (versionData jobDump)).1 = (main "2022" (versionData relistedJobDump)).1 := by
  apply main_eq_of_permuted
  · exact versionData_permuted
      ⟨List.Perm.swap _ _ _, List.Perm.swap _ _ _, List.Perm.refl _, rfl⟩
  · exact forall_versionData (P := fun dump => (dump.objects.map ObjectRow.object).Nodup)
      (by decide) List.nodup_nil
  · refine forall_versionData ⟨fun object => ?_, fun _ => List.nodup_nil⟩
      distinctOrdinals_emptyDump
    have hall : ((jobDump.params.map ParamsRow.param).map ParamRow.ordinal).Nodup := by decide
    exact hall.sublist ((List.filter_sublist.map _).map _)
  · refine forall_versionData ?_ oneStatus_emptyDump
    intro object row hrow
    contradiction

/-- The type that a document gives to the result of a path. -/
def resultType (doc : Doc) (path : String) : Option String :=
  (doc.paths.get path).bind fun post =>
    (post.responses.lookup "200").bind fun response =>
      (contentSchema response).bind fun schema => (schema.get "type").bind Json.asStr

def failedRow : ResultsetRow :=
  ⟨"dbo", "sp_report", some .unknown, some "Invalid object name '#pages'.", none, none, none⟩

def columnRow : ResultsetRow :=
  ⟨"dbo", "sp_report", some .described, none, some 1, some "page", some "int"⟩

def reportDump (resultsets : List ResultsetRow) : Dump where
  objects := [⟨"dbo", "sp_report", "SQL_STORED_PROCEDURE"⟩]
  params := []
  resultsets := resultsets
  fmtonly := []

/-- An object with rows of two statuses is shown by the first of them. -/
theorem main_ne_of_mixed_status :
    DataPermuted (versionData (reportDump [failedRow, columnRow]))
        (versionData (reportDump [columnRow, failedRow])) ∧
      ListsOnce (dumpsOf (versionData (reportDump [failedRow, columnRow])) "2022") ∧
      (∀ db, DistinctOrdinals
        (dumpsOf (versionData (reportDump [failedRow, columnRow])) "2022" db)) ∧
      (main "2022" (versionData (reportDump [failedRow, columnRow]))).1 ≠
        (main "2022" (versionData (reportDump [columnRow, failedRow]))).1 := by
  refine ⟨?_, ?_, ?_, ?_⟩
  · exact versionData_permuted
      ⟨List.Perm.refl _, List.Perm.refl _, List.Perm.swap _ _ _, rfl⟩
  · exact forall_versionData (P := fun dump => (dump.objects.map ObjectRow.object).Nodup)
      (by decide) List.nodup_nil
  · refine forall_versionData ⟨fun _ => List.nodup_nil, fun object => ?_⟩
      distinctOrdinals_emptyDump
    have hall : (([failedRow, columnRow].filter ResultsetRow.named).map ordinalOf).Nodup := by
      decide
    exact hall.sublist ((List.filter_sublist.filter _).map _)
  · intro heq
    have htypes := congrArg (fun doc => resultType doc "/dbo/sp_report") heq
    revert htypes
    decide

end SqlServerMcp.RowOrder
