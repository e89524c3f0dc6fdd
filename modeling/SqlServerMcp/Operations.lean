import Mathlib.Data.String.Basic
import SqlServerMcp.FmtonlyDump
import SqlServerMcp.Generator
import SqlServerMcp.Grouping

/-!
The generator's merge of the three databases. Every database lists its objects,
their parameters and the evidence about their result sets. Objects of one
schema, name and type become one operation, which takes its parameters from the
first database that has any and its result set from the best evidence.
-/
namespace SqlServerMcp.Operations

open AssocMap FmtonlyDump Generator Grouping Ranking

/-- The databases that the extraction sweeps. -/
inductive Database where
  | master | msdb | model
  deriving DecidableEq

def Database.name : Database → String
  | master => "master"
  | msdb => "msdb"
  | model => "model"

/-- In the order in which the first one with usable data wins. -/
def databases : List Database := [.master, .msdb, .model]

def Database.priority : Database → ℕ
  | master => 0
  | msdb => 1
  | model => 2

/-- A schema and a name. -/
abbrev ObjectKey := String × String

/-- What makes two listed objects one operation. -/
structure OperationKey where
  schemaName : String
  name : String
  typeDesc : String
  deriving DecidableEq

def OperationKey.object (k : OperationKey) : ObjectKey := (k.schemaName, k.name)

structure ObjectRow where
  schemaName : String
  objectName : String
  objectTypeDesc : String

namespace ObjectRow

def object (row : ObjectRow) : ObjectKey := (row.schemaName, row.objectName)

def key (row : ObjectRow) : OperationKey := ⟨row.schemaName, row.objectName, row.objectTypeDesc⟩

end ObjectRow

structure ParamsRow where
  schemaName : String
  objectName : String
  param : ParamRow

def ParamsRow.object (row : ParamsRow) : ObjectKey := (row.schemaName, row.objectName)

/-- How the description of a result set went. -/
inductive ResultSetStatus where
  | described | noResultSet | unknown
  deriving DecidableEq

structure ResultsetRow where
  schemaName : String
  objectName : String
  resultSetStatus : Option ResultSetStatus
  errorMessage : Option String
  columnOrdinal : Option ℕ
  columnName : Option String
  systemTypeName : Option String

namespace ResultsetRow

def object (row : ResultsetRow) : ObjectKey := (row.schemaName, row.objectName)

def named (row : ResultsetRow) : Bool := row.columnName.getD "" ≠ ""

end ResultsetRow

/-- What was extracted from one database. -/
structure Dump where
  objects : List ObjectRow
  params : List ParamsRow
  resultsets : List ResultsetRow
  fmtonly : List Char

def paramsByObject (dump : Dump) : Map ObjectKey (List ParamRow) :=
  gather ParamsRow.object [] (fun rows row => rows ++ [row.param]) dump.params

def resultsetByObject (dump : Dump) : Map ObjectKey (List ResultsetRow) :=
  gather ResultsetRow.object [] (fun rows row => rows ++ [row]) dump.resultsets

/-- What one database knows of an object. -/
structure Candidate where
  params : List ParamRow
  resultsetRows : Option (List ResultsetRow)
  fmtonly : Option Entry

def candidateOf (dump : Dump) (object : ObjectKey) : Candidate where
  params := ((paramsByObject dump).get object).getD []
  resultsetRows := (resultsetByObject dump).get object
  fmtonly := (loadFmtonlyDump dump.fmtonly).get object

structure RegistryEntry where
  databases : List Database
  candidates : Map Database Candidate

/-- All listed objects, database by database. -/
def listings (dumps : Database → Dump) : List (Database × ObjectRow) :=
  databases.flatMap fun db => (dumps db).objects.map fun row => (db, row)

def enterObject (dumps : Database → Dump) (entry : RegistryEntry) (x : Database × ObjectRow) :
    RegistryEntry where
  databases := entry.databases ++ [x.1]
  candidates := entry.candidates.insert x.1 (candidateOf (dumps x.1) x.2.object)

def registry (dumps : Database → Dump) : Map OperationKey RegistryEntry :=
  gather (fun x => x.2.key) ⟨[], Map.empty⟩ (enterObject dumps) (listings dumps)

def firstNonempty {A : Type*} (candidates : List (List A)) : List A :=
  (candidates.find? fun c => !c.isEmpty).getD []

/-- The evidence about a result set that an operation ends up with. -/
inductive ResultSet where
  | described (rows : List ResultsetRow)
  | fmtonly (columns : List String)
  | noResultSet
  | unknown (error : Option String)

def ResultSet.hasColumns : ResultSet → Bool
  | described _ => true
  | fmtonly _ => true
  | noResultSet => false
  | unknown _ => false

/-- The evidence of one database with its tier. The status is that of the first
row, and rows without a name do not count as described columns. -/
def candidateResultsetTier (rows : Option (List ResultsetRow)) (fmtonly : Option Entry) :
    ℕ × ResultSet :=
  let rows := rows.getD []
  let status := rows.head?.bind ResultsetRow.resultSetStatus
  let columns := (fmtonly.bind Entry.columns).getD []
  if status = some .described ∧ rows.any ResultsetRow.named then (4, .described rows)
  else if columns ≠ [] then (3, .fmtonly columns)
  else if status = some .noResultSet ∨ status = some .described then (2, .noResultSet)
  else if status = some .unknown then (1, .unknown (rows.head?.bind ResultsetRow.errorMessage))
  else (0, .unknown none)

namespace Candidate

def evidence (c : Candidate) : ℕ × ResultSet := candidateResultsetTier c.resultsetRows c.fmtonly

def score (c : Candidate) : ℤ := c.evidence.1

def resultset (c : Candidate) : ResultSet := c.evidence.2

end Candidate

/-- The candidates of an object in the order of the databases. -/
def presentCandidates (candidates : Map Database Candidate) : List Candidate :=
  databases.filterMap candidates.get

def chooseBestResultset (candidates : Map Database Candidate) : ResultSet :=
  (choose Candidate.score Candidate.resultset (-1, .unknown none) (presentCandidates candidates)).2

structure Operation where
  schemaName : String
  name : String
  typeDesc : String
  databases : List String
  params : List ParamRow
  resultset : ResultSet
  hasParams : Bool
  hasColumns : Bool

namespace Operation

def object (op : Operation) : ObjectKey := (op.schemaName, op.name)

def key (op : Operation) : OperationKey := ⟨op.schemaName, op.name, op.typeDesc⟩

end Operation

def extendedType : String := "EXTENDED_STORED_PROCEDURE"

/-- The operation of a registry entry. An extended procedure of which nothing
is known is dropped. -/
def operationOf (k : OperationKey) (entry : RegistryEntry) : Option Operation :=
  let params := firstNonempty ((presentCandidates entry.candidates).map Candidate.params)
  let resultset := chooseBestResultset entry.candidates
  if k.typeDesc = extendedType ∧ params = [] ∧ resultset.hasColumns = false then none
  else some
    { schemaName := k.schemaName
      name := k.name
      typeDesc := k.typeDesc
      databases := sortOn id (entry.databases.map Database.name)
      params := params
      resultset := resultset
      hasParams := params.any fun p => !p.isOutput
      hasColumns := resultset.hasColumns }

/-- The operations, not yet ranked, and how many extended procedures were
dropped. -/
def buildOperations (dumps : Database → Dump) : List Operation × ℕ :=
  let entries := (registry dumps).entries
  (entries.filterMap fun e => operationOf e.1 e.2,
    entries.countP fun e => (operationOf e.1 e.2).isNone)

/-! What the databases list and know, without the generator's dictionaries. -/

def ListedIn (dumps : Database → Dump) (db : Database) (k : OperationKey) : Prop :=
  ∃ row ∈ (dumps db).objects, row.key = k

instance (dumps : Database → Dump) (db : Database) (k : OperationKey) :
    Decidable (ListedIn dumps db k) := by
  unfold ListedIn
  infer_instance

/-- The databases that list an object, in their order. -/
def holders (dumps : Database → Dump) (k : OperationKey) : List Database :=
  databases.filter fun db => ListedIn dumps db k

def paramsIn (dump : Dump) (object : ObjectKey) : List ParamRow :=
  (dump.params.filter fun row => row.object = object).map ParamsRow.param

def resultsetsIn (dump : Dump) (object : ObjectKey) : List ResultsetRow :=
  dump.resultsets.filter fun row => row.object = object

def evidence (dump : Dump) (object : ObjectKey) : ℕ × ResultSet :=
  candidateResultsetTier (some (resultsetsIn dump object))
    ((loadFmtonlyDump dump.fmtonly).get object)

theorem mem_databases (db : Database) : db ∈ databases := by
  cases db <;> simp [databases]

theorem databases_pairwise : databases.Pairwise fun a b => a.priority < b.priority := by
  simp [databases, Database.priority]

theorem name_injective : Function.Injective Database.name := by
  intro a b h
  cases a <;> cases b <;> simp_all [Database.name]

theorem mem_holders (dumps : Database → Dump) (db : Database) (k : OperationKey) :
    db ∈ holders dumps k ↔ ListedIn dumps db k := by
  simp [holders, mem_databases]

theorem holders_pairwise (dumps : Database → Dump) (k : OperationKey) :
    (holders dumps k).Pairwise fun a b => a.priority < b.priority :=
  databases_pairwise.filter _

theorem candidateOf_params (dump : Dump) (object : ObjectKey) :
    (candidateOf dump object).params = paramsIn dump object :=
  getD_gather_collect ParamsRow.object ParamsRow.param dump.params object

/-- An object without rows has the evidence of an empty list of rows. -/
theorem candidateOf_evidence (dump : Dump) (object : ObjectKey) :
    (candidateOf dump object).evidence = evidence dump object := by
  have hrows : ((resultsetByObject dump).get object).getD [] = resultsetsIn dump object := by
    have hcollect := getD_gather_collect ResultsetRow.object id dump.resultsets object
    rwa [List.map_id] at hcollect
  unfold Candidate.evidence evidence candidateResultsetTier candidateOf
  simp only [hrows, Option.getD_some]

theorem mem_listings (dumps : Database → Dump) (db : Database) (row : ObjectRow) :
    (db, row) ∈ listings dumps ↔ row ∈ (dumps db).objects := by
  unfold listings
  constructor
  · intro h
    obtain ⟨db', _, hmem⟩ := List.mem_flatMap.mp h
    obtain ⟨row', hrow, heq⟩ := List.mem_map.mp hmem
    cases heq
    exact hrow
  · intro h
    exact List.mem_flatMap.mpr ⟨db, mem_databases db, List.mem_map.mpr ⟨row, h, rfl⟩⟩

/-- The listings of one operation, in their order. -/
def listingsOf (dumps : Database → Dump) (k : OperationKey) : List (Database × ObjectRow) :=
  (listings dumps).filter fun x => x.2.key = k

theorem key_of_mem_listingsOf {dumps : Database → Dump} {k : OperationKey}
    {x : Database × ObjectRow} (h : x ∈ listingsOf dumps k) : x.2.key = k :=
  of_decide_eq_true (List.mem_filter.mp h).2

theorem object_of_mem_listingsOf {dumps : Database → Dump} {k : OperationKey}
    {x : Database × ObjectRow} (h : x ∈ listingsOf dumps k) : x.2.object = k.object :=
  congrArg OperationKey.object (key_of_mem_listingsOf h)

theorem mem_listingsOf (dumps : Database → Dump) (db : Database) (k : OperationKey) :
    db ∈ (listingsOf dumps k).map Prod.fst ↔ ListedIn dumps db k := by
  unfold listingsOf ListedIn
  constructor
  · intro h
    obtain ⟨⟨db', row⟩, hmem, rfl⟩ := List.mem_map.mp h
    obtain ⟨hlisted, hkey⟩ := List.mem_filter.mp hmem
    exact ⟨row, (mem_listings dumps _ row).mp hlisted, of_decide_eq_true hkey⟩
  · intro h'
    obtain ⟨row, hrow, hkey⟩ := h'
    refine List.mem_map.mpr ⟨(db, row), List.mem_filter.mpr ⟨?_, decide_eq_true hkey⟩, rfl⟩
    exact (mem_listings dumps db row).mpr hrow

/-- What the registry holds for the listings of one operation. -/
def entryOf (dumps : Database → Dump) (k : OperationKey) : RegistryEntry :=
  (listingsOf dumps k).foldl (enterObject dumps) ⟨[], Map.empty⟩

theorem foldl_enterObject_databases (dumps : Database → Dump) (l : List (Database × ObjectRow))
    (entry : RegistryEntry) :
    (l.foldl (enterObject dumps) entry).databases = entry.databases ++ l.map Prod.fst := by
  induction l generalizing entry with
  | nil => simp
  | cons x rest ih => simp [ih, enterObject]

theorem foldl_enterObject_get (dumps : Database → Dump) (object : ObjectKey)
    {l : List (Database × ObjectRow)} (h : ∀ x ∈ l, x.2.object = object) (entry : RegistryEntry)
    (db : Database) :
    (l.foldl (enterObject dumps) entry).candidates.get db =
      if db ∈ l.map Prod.fst then some (candidateOf (dumps db) object)
      else entry.candidates.get db := by
  induction l generalizing entry with
  | nil => simp
  | cons x rest ih =>
    have hx : x.2.object = object := h x (by simp)
    rw [List.foldl_cons, ih fun y hy => h y (List.mem_cons_of_mem x hy)]
    by_cases hrest : db ∈ rest.map Prod.fst
    · have hcons : db ∈ (x :: rest).map Prod.fst := List.mem_cons_of_mem _ hrest
      rw [if_pos hrest, if_pos hcons]
    · rw [if_neg hrest]
      unfold enterObject
      rw [Map.get_insert, hx]
      by_cases hdb : db = x.1
      · subst hdb
        simp
      · have hcons : db ∉ (x :: rest).map Prod.fst := by
          rw [List.map_cons, List.mem_cons]
          exact fun h => h.elim hdb hrest
        rw [if_neg hdb, if_neg hcons]

theorem entryOf_databases (dumps : Database → Dump) (k : OperationKey) :
    (entryOf dumps k).databases = (listingsOf dumps k).map Prod.fst :=
  foldl_enterObject_databases dumps _ _

theorem entryOf_get (dumps : Database → Dump) (k : OperationKey) (db : Database) :
    (entryOf dumps k).candidates.get db =
      if ListedIn dumps db k then some (candidateOf (dumps db) k.object) else none := by
  have hget := foldl_enterObject_get dumps k.object
    (fun x (hx : x ∈ listingsOf dumps k) => object_of_mem_listingsOf hx) ⟨[], Map.empty⟩ db
  simp only [mem_listingsOf] at hget
  exact hget

/-- The candidates of an object are those of the databases that list it. -/
theorem presentCandidates_entryOf (dumps : Database → Dump) (k : OperationKey) :
    presentCandidates (entryOf dumps k).candidates =
      (holders dumps k).map fun db => candidateOf (dumps db) k.object := by
  unfold presentCandidates holders
  induction databases with
  | nil => rfl
  | cons db rest ih =>
    rw [List.filterMap_cons, entryOf_get, ih]
    by_cases hdb : ListedIn dumps db k <;> simp [hdb]

theorem registry_get_eq_some_iff (dumps : Database → Dump) (k : OperationKey)
    (entry : RegistryEntry) :
    (registry dumps).get k = some entry ↔
      (∃ db, ListedIn dumps db k) ∧ entryOf dumps k = entry := by
  have hlisted : k ∈ (listings dumps).map (fun x => x.2.key) ↔ ∃ db, ListedIn dumps db k := by
    constructor
    · intro h
      obtain ⟨⟨db, row⟩, hmem, hkey⟩ := List.mem_map.mp h
      exact ⟨db, row, (mem_listings dumps db row).mp hmem, hkey⟩
    · intro h'
      obtain ⟨db, row, hrow, hkey⟩ := h'
      exact List.mem_map.mpr ⟨(db, row), (mem_listings dumps db row).mpr hrow, hkey⟩
  unfold registry
  rw [get_gather_eq_some_iff, hlisted]
  rfl

/-- The operation that the generator makes of an object, unless it is dropped. -/
def operationFor (dumps : Database → Dump) (k : OperationKey) : Option Operation :=
  operationOf k (entryOf dumps k)

theorem mem_operations_iff (dumps : Database → Dump) (op : Operation) :
    op ∈ (buildOperations dumps).1 ↔
      ∃ k, (∃ db, ListedIn dumps db k) ∧ operationFor dumps k = some op := by
  have hentries : ∀ k entry, (k, entry) ∈ (registry dumps).entries ↔
      (∃ db, ListedIn dumps db k) ∧ entryOf dumps k = entry := by
    intro k entry
    rw [← registry_get_eq_some_iff]
    exact (lookup_eq_some_iff_mem (registry dumps).distinct k entry).symm
  unfold buildOperations
  simp only [List.mem_filterMap]
  constructor
  · intro h
    obtain ⟨⟨k, entry⟩, hmem, hop⟩ := h
    obtain ⟨hlisted, rfl⟩ := (hentries k entry).mp hmem
    exact ⟨k, hlisted, hop⟩
  · intro h
    obtain ⟨k, hlisted, hop⟩ := h
    exact ⟨(k, entryOf dumps k), (hentries k _).mpr ⟨hlisted, rfl⟩, hop⟩

section FirstNonempty

variable {A : Type*}

theorem firstNonempty_eq_nil_iff (candidates : List (List A)) :
    firstNonempty candidates = [] ↔ ∀ c ∈ candidates, c = [] := by
  unfold firstNonempty
  cases hfind : candidates.find? (fun c => !c.isEmpty) with
  | none =>
    simp only [Option.getD_none, true_iff]
    intro c hc
    simpa using List.find?_eq_none.mp hfind c hc
  | some c =>
    have hne : c ≠ [] := by simpa using List.find?_some hfind
    rw [Option.getD_some]
    constructor
    · intro hnil
      exact absurd hnil hne
    · intro hall
      exact hall c (List.mem_of_find?_eq_some hfind)

theorem firstNonempty_mem {candidates : List (List A)} (h : candidates ≠ []) :
    firstNonempty candidates ∈ candidates := by
  by_cases hnil : firstNonempty candidates = []
  · obtain ⟨c, rest, rfl⟩ := List.exists_cons_of_ne_nil h
    have hc : c = [] := (firstNonempty_eq_nil_iff _).mp hnil c (by simp)
    rw [hnil, hc]
    exact List.mem_cons_self
  · unfold firstNonempty at hnil ⊢
    cases hfind : candidates.find? (fun c => !c.isEmpty) with
    | none => simp [hfind] at hnil
    | some c =>
      rw [Option.getD_some]
      exact List.mem_of_find?_eq_some hfind

end FirstNonempty

/-- The parameters of an operation, in terms of what the databases list. -/
def mergedParams (dumps : Database → Dump) (k : OperationKey) : List ParamRow :=
  firstNonempty ((holders dumps k).map fun db => paramsIn (dumps db) k.object)

def mergedResultset (dumps : Database → Dump) (k : OperationKey) : ResultSet :=
  (choose (fun db => ((evidence (dumps db) k.object).1 : ℤ))
    (fun db => (evidence (dumps db) k.object).2) (-1, .unknown none) (holders dumps k)).2

def mergedDatabases (dumps : Database → Dump) (k : OperationKey) : List String :=
  sortOn id (((listingsOf dumps k).map Prod.fst).map Database.name)

/-- An extended procedure without parameters and without columns. -/
def Undocumented (dumps : Database → Dump) (k : OperationKey) : Prop :=
  k.typeDesc = extendedType ∧ mergedParams dumps k = [] ∧
    (mergedResultset dumps k).hasColumns = false

theorem operationFor_eq (dumps : Database → Dump) (k : OperationKey) :
    (Undocumented dumps k ∧ operationFor dumps k = none) ∨
    (¬ Undocumented dumps k ∧ operationFor dumps k = some
      { schemaName := k.schemaName
        name := k.name
        typeDesc := k.typeDesc
        databases := mergedDatabases dumps k
        params := mergedParams dumps k
        resultset := mergedResultset dumps k
        hasParams := (mergedParams dumps k).any fun p => !p.isOutput
        hasColumns := (mergedResultset dumps k).hasColumns }) := by
  have hparams : firstNonempty ((presentCandidates (entryOf dumps k).candidates).map
      Candidate.params) = mergedParams dumps k := by
    rw [presentCandidates_entryOf, List.map_map]
    unfold mergedParams
    congr 2
    funext db
    exact candidateOf_params (dumps db) k.object
  have hresultset : chooseBestResultset (entryOf dumps k).candidates =
      mergedResultset dumps k := by
    unfold chooseBestResultset mergedResultset
    rw [presentCandidates_entryOf, choose_map]
    simp only [Candidate.score, Candidate.resultset, candidateOf_evidence]
  have hdatabases : sortOn id ((entryOf dumps k).databases.map Database.name) =
      mergedDatabases dumps k := by
    rw [entryOf_databases]
    rfl
  unfold operationFor operationOf Undocumented
  simp only [hparams, hresultset, hdatabases]
  by_cases hdrop : k.typeDesc = extendedType ∧ mergedParams dumps k = [] ∧
      (mergedResultset dumps k).hasColumns = false
  · exact Or.inl ⟨hdrop, if_pos hdrop⟩
  · exact Or.inr ⟨hdrop, if_neg hdrop⟩

theorem operationFor_eq_none_iff (dumps : Database → Dump) (k : OperationKey) :
    operationFor dumps k = none ↔ Undocumented dumps k := by
  rcases operationFor_eq dumps k with ⟨hdrop, heq⟩ | ⟨hkeep, heq⟩
  · exact ⟨fun _ => hdrop, fun _ => heq⟩
  · constructor
    · intro hnone
      rw [heq] at hnone
      contradiction
    · intro hdrop
      exact absurd hdrop hkeep

/-- What an operation says of its object. -/
theorem fields_of_operationFor {dumps : Database → Dump} {k : OperationKey} {op : Operation}
    (h : operationFor dumps k = some op) :
    op.key = k ∧ op.databases = mergedDatabases dumps k ∧ op.params = mergedParams dumps k ∧
      op.resultset = mergedResultset dumps k := by
  rcases operationFor_eq dumps k with ⟨_, heq⟩ | ⟨_, heq⟩
  · rw [heq] at h
    contradiction
  · rw [heq] at h
    rw [← Option.some.inj h]
    exact ⟨rfl, rfl, rfl, rfl⟩

theorem mem_mergedDatabases (dumps : Database → Dump) (k : OperationKey) (name : String) :
    name ∈ mergedDatabases dumps k ↔ ∃ db, ListedIn dumps db k ∧ db.name = name := by
  unfold mergedDatabases
  rw [(sortOn_perm id _).mem_iff, List.mem_map]
  simp only [mem_listingsOf]

theorem mergedParams_eq_nil_iff (dumps : Database → Dump) (k : OperationKey) :
    mergedParams dumps k = [] ↔
      ∀ db, ListedIn dumps db k → paramsIn (dumps db) k.object = [] := by
  unfold mergedParams
  rw [firstNonempty_eq_nil_iff]
  simp only [List.mem_map, mem_holders]
  constructor
  · intro h db hdb
    exact h _ ⟨db, hdb, rfl⟩
  · intro h c h'
    obtain ⟨db, hdb, rfl⟩ := h'
    exact h db hdb

/-- The parameters of an operation are those of one of its databases. -/
theorem exists_mergedParams (dumps : Database → Dump) {k : OperationKey}
    (h : ∃ db, ListedIn dumps db k) :
    ∃ db, ListedIn dumps db k ∧ mergedParams dumps k = paramsIn (dumps db) k.object := by
  obtain ⟨db, hdb⟩ := h
  have hne : (holders dumps k).map (fun db => paramsIn (dumps db) k.object) ≠ [] :=
    List.ne_nil_of_mem (List.mem_map_of_mem ((mem_holders dumps db k).mpr hdb))
  obtain ⟨db', hmem, heq⟩ := List.mem_map.mp (firstNonempty_mem hne)
  exact ⟨db', (mem_holders dumps db' k).mp hmem, heq.symm⟩

/-- The evidence of an operation is of the highest tier, and of the first
database that has it. -/
theorem exists_mergedResultset (dumps : Database → Dump) {k : OperationKey}
    (h : ∃ db, ListedIn dumps db k) :
    ∃ db, ListedIn dumps db k ∧ mergedResultset dumps k = (evidence (dumps db) k.object).2 ∧
      (∀ db', ListedIn dumps db' k →
        (evidence (dumps db') k.object).1 ≤ (evidence (dumps db) k.object).1) ∧
      ∀ db', ListedIn dumps db' k → db'.priority < db.priority →
        (evidence (dumps db') k.object).1 < (evidence (dumps db) k.object).1 := by
  obtain ⟨db₀, hdb₀⟩ := h
  have hne : holders dumps k ≠ [] := List.ne_nil_of_mem ((mem_holders dumps db₀ k).mpr hdb₀)
  obtain ⟨db, hdb, hchoose, hbest, hfirst⟩ := choose_best
    (fun db => ((evidence (dumps db) k.object).1 : ℤ))
    (fun db => (evidence (dumps db) k.object).2) Database.priority (-1, .unknown none) hne
    (holders_pairwise dumps k) (by
      intro db _
      show (-1 : ℤ) < ((evidence (dumps db) k.object).1 : ℤ)
      omega)
  refine ⟨db, (mem_holders dumps db k).mp hdb, ?_, ?_, ?_⟩
  · unfold mergedResultset
    rw [hchoose]
  · intro db' hdb'
    exact Int.ofNat_le.mp (hbest db' ((mem_holders dumps db' k).mpr hdb'))
  · intro db' hdb' hprior
    exact Int.ofNat_lt.mp (hfirst db' ((mem_holders dumps db' k).mpr hdb') hprior)

/-- Columns that one database shows for an object: described ones with a name,
or the names of the other dump. -/
def ColumnEvidence (dump : Dump) (object : ObjectKey) : Prop :=
  ((resultsetsIn dump object).head?.bind ResultsetRow.resultSetStatus = some .described ∧
    ∃ row ∈ resultsetsIn dump object, row.named) ∨
  ∃ entry columns, (loadFmtonlyDump dump.fmtonly).get object = some entry ∧
    entry.columns = some columns ∧ columns ≠ []

theorem columnEvidence_iff (dump : Dump) (object : ObjectKey) :
    ColumnEvidence dump object ↔
      ((resultsetsIn dump object).head?.bind ResultsetRow.resultSetStatus = some .described ∧
        (resultsetsIn dump object).any ResultsetRow.named) ∨
      (((loadFmtonlyDump dump.fmtonly).get object).bind Entry.columns).getD [] ≠ [] := by
  unfold ColumnEvidence
  rw [List.any_eq_true]
  apply or_congr_right
  cases (loadFmtonlyDump dump.fmtonly).get object with
  | none => simp
  | some entry => cases hcolumns : entry.columns <;> simp [hcolumns]

/-- The two highest tiers are those that show columns. -/
theorem three_le_tier_iff (dump : Dump) (object : ObjectKey) :
    3 ≤ (evidence dump object).1 ↔ ColumnEvidence dump object := by
  rw [columnEvidence_iff]
  unfold evidence candidateResultsetTier
  simp only [Option.getD_some]
  split
  next h => simp [h]
  next hdescribed =>
    split
    next h => simp [h]
    next hcolumns =>
      have hnone : ¬ (_ ∨ _) := fun h => h.elim hdescribed hcolumns
      split
      next => exact iff_of_false (by omega) hnone
      next =>
        split
        · exact iff_of_false (by omega) hnone
        · exact iff_of_false (by omega) hnone

theorem hasColumns_evidence (dump : Dump) (object : ObjectKey) :
    (evidence dump object).2.hasColumns = true ↔ 3 ≤ (evidence dump object).1 := by
  unfold evidence candidateResultsetTier
  simp only [Option.getD_some]
  split
  · simp [ResultSet.hasColumns]
  · split
    · simp [ResultSet.hasColumns]
    · split
      · simp [ResultSet.hasColumns]
      · split <;> simp [ResultSet.hasColumns]

theorem hasColumns_mergedResultset (dumps : Database → Dump) {k : OperationKey}
    (h : ∃ db, ListedIn dumps db k) :
    (mergedResultset dumps k).hasColumns = false ↔
      ∀ db, ListedIn dumps db k → ¬ ColumnEvidence (dumps db) k.object := by
  obtain ⟨db, hdb, heq, hbest, _⟩ := exists_mergedResultset dumps h
  rw [heq, ← Bool.not_eq_true, hasColumns_evidence]
  constructor
  · intro hlow db' hdb' hcolumns
    have hhigh := (three_le_tier_iff _ _).mpr hcolumns
    have hle := hbest db' hdb'
    omega
  · intro hnone hhigh
    exact hnone db hdb ((three_le_tier_iff _ _).mp hhigh)

/-- Only extended procedures without any parameter or column are dropped. -/
theorem undocumented_iff (dumps : Database → Dump) {k : OperationKey}
    (h : ∃ db, ListedIn dumps db k) :
    Undocumented dumps k ↔ k.typeDesc = extendedType ∧
      (∀ db, ListedIn dumps db k → paramsIn (dumps db) k.object = []) ∧
      ∀ db, ListedIn dumps db k → ¬ ColumnEvidence (dumps db) k.object := by
  unfold Undocumented
  rw [mergedParams_eq_nil_iff, hasColumns_mergedResultset dumps h]

/-- Every database lists a schema and name at most once. -/
def ListsOnce (dumps : Database → Dump) : Prop :=
  ∀ db, ((dumps db).objects.map ObjectRow.object).Nodup

/-- Of two listings of one schema and name, the earlier is of an earlier database. -/
theorem listings_pairwise {dumps : Database → Dump} (h : ListsOnce dumps) :
    (listings dumps).Pairwise fun x y =>
      x.2.object = y.2.object → x.1.priority < y.1.priority := by
  unfold listings
  apply List.pairwise_flatMap.mpr
  constructor
  · intro db _
    apply List.pairwise_map.mpr
    refine (List.pairwise_map.mp (h db)).imp ?_
    intro x y hne heq
    exact absurd heq hne
  · refine databases_pairwise.imp ?_
    intro a b hab x hx y hy _
    obtain ⟨_, _, rfl⟩ := List.mem_map.mp hx
    obtain ⟨_, _, rfl⟩ := List.mem_map.mp hy
    exact hab

theorem mergedDatabases_pairwise {dumps : Database → Dump} (h : ListsOnce dumps)
    (k : OperationKey) : (mergedDatabases dumps k).Pairwise (· < ·) := by
  have hpriority : (listingsOf dumps k).Pairwise fun x y => x.1 ≠ y.1 := by
    refine List.Pairwise.imp_of_mem ?_ ((listings_pairwise h).filter _)
    intro x y hx hy hlt heq
    have hpos := hlt ((object_of_mem_listingsOf hx).trans (object_of_mem_listingsOf hy).symm)
    rw [heq] at hpos
    omega
  have hnodup : (((listingsOf dumps k).map Prod.fst).map Database.name).Nodup :=
    (List.pairwise_map.mpr hpriority).map _ fun _ _ hne => name_injective.ne hne
  unfold mergedDatabases
  apply sortOn_pairwise_lt id
  rw [List.map_id]
  exact hnodup

theorem key_of_operationOf {k : OperationKey} {entry : RegistryEntry} {op : Operation}
    (h : operationOf k entry = some op) : op.key = k := by
  unfold operationOf at h
  simp only [] at h
  split at h
  · contradiction
  · rw [← Option.some.inj h]
    rfl

/-- The operations keep the order of the registry, so no two have one key. -/
theorem operations_keys_sublist (dumps : Database → Dump) :
    ((buildOperations dumps).1.map Operation.key).Sublist (keys (registry dumps).entries) := by
  refine keys_filterMap_sublist _ _ Operation.key ?_
  intro e op hop
  exact key_of_operationOf hop

/-- What an operation keeps of what its databases list and know. -/
structure Merged (dumps : Database → Dump) (op : Operation) : Prop where
  databases_sorted : op.databases.Pairwise (· < ·)
  mem_databases : ∀ name, name ∈ op.databases ↔ ∃ db, ListedIn dumps db op.key ∧ db.name = name
  params_kept : ∀ db, ListedIn dumps db op.key → paramsIn (dumps db) op.object ≠ [] → op.params ≠ []
  best_evidence : ∃ db, ListedIn dumps db op.key ∧
    op.resultset = (evidence (dumps db) op.object).2 ∧
    (∀ db', ListedIn dumps db' op.key →
      (evidence (dumps db') op.object).1 ≤ (evidence (dumps db) op.object).1) ∧
    ∀ db', ListedIn dumps db' op.key → db'.priority < db.priority →
      (evidence (dumps db') op.object).1 < (evidence (dumps db) op.object).1

theorem mem_operations_keys_iff (dumps : Database → Dump) (k : OperationKey) :
    k ∈ (buildOperations dumps).1.map Operation.key ↔
      (∃ db, ListedIn dumps db k) ∧ ¬ Undocumented dumps k := by
  constructor
  · intro hmem
    obtain ⟨op, hop, rfl⟩ := List.mem_map.mp hmem
    obtain ⟨k, hlisted, hfor⟩ := (mem_operations_iff dumps op).mp hop
    obtain ⟨hkey, _⟩ := fields_of_operationFor hfor
    rw [hkey]
    refine ⟨hlisted, ?_⟩
    intro hdrop
    rw [(operationFor_eq_none_iff dumps k).mpr hdrop] at hfor
    contradiction
  · intro h
    obtain ⟨hlisted, hkeep⟩ := h
    rcases operationFor_eq dumps k with ⟨hdrop, _⟩ | ⟨_, heq⟩
    · exact absurd hdrop hkeep
    · exact List.mem_map.mpr ⟨_, (mem_operations_iff dumps _).mpr ⟨k, hlisted, heq⟩, rfl⟩

theorem merged_of_mem {dumps : Database → Dump} (h : ListsOnce dumps) {op : Operation}
    (hop : op ∈ (buildOperations dumps).1) : Merged dumps op := by
  obtain ⟨k, hlisted, hfor⟩ := (mem_operations_iff dumps op).mp hop
  obtain ⟨rfl, hdatabases, hparams, hresultset⟩ := fields_of_operationFor hfor
  refine ⟨?_, ?_, ?_, ?_⟩
  · rw [hdatabases]
    exact mergedDatabases_pairwise h op.key
  · intro name
    rw [hdatabases]
    exact mem_mergedDatabases dumps op.key name
  · intro db hdb hne hnil
    rw [hparams] at hnil
    exact hne ((mergedParams_eq_nil_iff dumps op.key).mp hnil db hdb)
  · rw [hresultset]
    exact exists_mergedResultset dumps hlisted

/-- Where every database lists a schema and name at most once, every listed
object becomes one operation, but for the extended procedures of which no
database shows a parameter or a column. An operation names its databases in
order, has parameters when one of them does, and has the best evidence. -/
theorem buildOperations_complete (dumps : Database → Dump) (h : ListsOnce dumps) :
    ((buildOperations dumps).1.map Operation.key).Nodup ∧
    (∀ k, k ∈ (buildOperations dumps).1.map Operation.key ↔ (∃ db, ListedIn dumps db k) ∧
      ¬ (k.typeDesc = extendedType ∧
        (∀ db, ListedIn dumps db k → paramsIn (dumps db) k.object = []) ∧
        ∀ db, ListedIn dumps db k → ¬ ColumnEvidence (dumps db) k.object)) ∧
    ∀ op ∈ (buildOperations dumps).1, Merged dumps op := by
  refine ⟨?_, ?_, ?_⟩
  · exact List.Nodup.sublist (operations_keys_sublist dumps) (registry dumps).distinct
  · intro k
    rw [mem_operations_keys_iff]
    apply and_congr_right
    intro hlisted
    rw [undocumented_iff dumps hlisted]
  · intro op hop
    exact merged_of_mem h hop

/-- A procedure that two databases list, and an extended one that is dropped. -/
def serverDumps : Database → Dump
  | .master =>
    { objects := [⟨"sys", "xp_trace", extendedType⟩, ⟨"sys", "sp_who", "SQL_STORED_PROCEDURE"⟩]
      params := []
      resultsets := []
      fmtonly := [] }
  | .msdb =>
    { objects := [⟨"sys", "sp_who", "SQL_STORED_PROCEDURE"⟩]
      params := []
      resultsets := [⟨"sys", "sp_who", some .noResultSet, none, none, none, none⟩]
      fmtonly := [] }
  | .model => ⟨[], [], [], []⟩

theorem buildOperations_complete_serverDumps :
    ListsOnce serverDumps ∧ ((buildOperations serverDumps).1.map Operation.key).Nodup ∧
      ∀ op ∈ (buildOperations serverDumps).1, Merged serverDumps op := by
  have hlists : ListsOnce serverDumps := by
    intro db
    cases db <;> decide
  obtain ⟨hnodup, _, hmerged⟩ := buildOperations_complete serverDumps hlists
  exact ⟨hlists, hnodup, hmerged⟩

/-- The input parameters of an object: their names, ordinals and types. -/
def signature (params : List ParamRow) : List (String × ℕ × String) :=
  (params.filter fun p => !p.isOutput).map fun p => (p.name, p.ordinal, p.sqlType)

def SameInputs (params params' : List ParamRow) : Prop :=
  (signature params).Perm (signature params')

/-- Every database that an operation names has the inputs that it documents. -/
def DocumentsInputs (dumps : Database → Dump) : Prop :=
  ∀ op ∈ (buildOperations dumps).1, ∀ db, db.name ∈ op.databases →
    SameInputs (paramsIn (dumps db) op.object) op.params

/-- The databases that list one schema, name and type agree on its inputs. -/
def Agree (dumps : Database → Dump) : Prop :=
  ∀ k db db', ListedIn dumps db k → ListedIn dumps db' k →
    SameInputs (paramsIn (dumps db) k.object) (paramsIn (dumps db') k.object)

theorem agree_of_documentsInputs {dumps : Database → Dump} (h : DocumentsInputs dumps) :
    Agree dumps := by
  intro k db db' hdb hdb'
  cases hfor : operationFor dumps k with
  | none =>
    -- a dropped object has no parameters in any database
    obtain ⟨_, hnil, _⟩ := (operationFor_eq_none_iff dumps k).mp hfor
    have hall := (mergedParams_eq_nil_iff dumps k).mp hnil
    rw [hall db hdb, hall db' hdb']
    exact List.Perm.refl _
  | some op =>
    have hop : op ∈ (buildOperations dumps).1 :=
      (mem_operations_iff dumps op).mpr ⟨k, ⟨db, hdb⟩, hfor⟩
    obtain ⟨rfl, hdatabases, _⟩ := fields_of_operationFor hfor
    have hnames : ∀ d, ListedIn dumps d op.key → d.name ∈ op.databases := by
      intro d hd
      rw [hdatabases]
      exact (mem_mergedDatabases dumps op.key d.name).mpr ⟨d, hd, rfl⟩
    exact (h op hop db (hnames db hdb)).trans (h op hop db' (hnames db' hdb')).symm

/-- The operations document the inputs of every database they name exactly when
the databases agree on the objects that they share. -/
theorem documentsInputs_iff (dumps : Database → Dump) : DocumentsInputs dumps ↔ Agree dumps := by
  constructor
  · exact agree_of_documentsInputs
  · intro hagree op hop db hname
    obtain ⟨k, hlisted, hfor⟩ := (mem_operations_iff dumps op).mp hop
    obtain ⟨rfl, hdatabases, hparams, _⟩ := fields_of_operationFor hfor
    rw [hdatabases] at hname
    obtain ⟨db', hdb', heq⟩ := (mem_mergedDatabases dumps op.key db.name).mp hname
    obtain rfl := name_injective heq
    obtain ⟨source, hsource, hmerged⟩ := exists_mergedParams dumps hlisted
    rw [hparams, hmerged]
    exact hagree op.key db' source hdb' hsource

/-- An input parameter of a procedure that two databases ship. -/
def purgeParam (parameterName dataType : String) : ParamsRow where
  schemaName := "dbo"
  objectName := "sp_purge"
  param :=
    { parameterName := some parameterName
      ordinal := 1
      dataType := dataType
      maxLength := none
      precision := none
      scale := none
      isOutput := false
      hasDefaultValue := false
      defaultValue := none
      ordinal_lt := by omega }

def purgeDump (parameterName dataType : String) : Dump where
  objects := [⟨"dbo", "sp_purge", "SQL_STORED_PROCEDURE"⟩]
  params := [purgeParam parameterName dataType]
  resultsets := []
  fmtonly := []

def purgeDumps : Database → Dump
  | .master => purgeDump "@days" "int"
  | .msdb => purgeDump "@before" "datetime"
  | .model => ⟨[], [], [], []⟩

/-- The two procedures become one operation with the parameter of the first. -/
theorem not_documentsInputs_purge : ¬ DocumentsInputs purgeDumps := by
  intro h
  have hsame := agree_of_documentsInputs h ⟨"dbo", "sp_purge", "SQL_STORED_PROCEDURE"⟩
    .master .msdb ⟨_, List.mem_cons_self, rfl⟩ ⟨_, List.mem_cons_self, rfl⟩
  have hmem : ("days", 1, "int") ∈ signature (paramsIn (purgeDumps .msdb) ("dbo", "sp_purge")) :=
    hsame.mem_iff.mp (by decide)
  revert hmem
  decide

end SqlServerMcp.Operations
