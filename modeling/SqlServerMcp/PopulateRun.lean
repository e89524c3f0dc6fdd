import Mathlib.Logic.Equiv.List
import SqlServerMcp.Interruptions
import SqlServerMcp.PopulateEmbeddings
import SqlServerMcp.Runs

/-!
A run of the indexer on one store, step by step on the disk. The working copy is
written byte by byte where only the compressed file is there, each statement is a
transaction of its own, and the compressed file is rewritten before the working copy
is removed. Which of the two files counts is decided by whether the working copy exists.
-/
namespace SqlServerMcp.PopulateRun

open AssocMap Interruptions Runs Steps
open PopulateEmbeddings hiding populateRows populateOne missingOperationIds

abbrev Bytes := List UInt8

/-- The files of one store: the working copy and its compressed sibling. -/
structure Disk where
  raw : Option Bytes
  zst : Option Bytes
  deriving DecidableEq

namespace Disk

def putRaw (bytes : Bytes) (d : Disk) : Disk := { d with raw := some bytes }

def putZst (bytes : Bytes) (d : Disk) : Disk := { d with zst := some bytes }

def removeRaw (d : Disk) : Disk := { d with raw := none }

end Disk

/-- Compression, the database and the embedding model, as far as a run relies on them:
what is compressed can be read back, a transaction leaves a store with its vectors, and
no store opens from a part of its file. -/
structure Surroundings where
  decodeAll : Bytes → Except String Bytes
  encodeAll : Bytes → Bytes
  openStore : Bytes → Except String Store
  commit : Bytes → Vectors → Bytes
  embed : String → Except String (List UInt32)
  dimension : ℕ
  decodeAll_encodeAll : ∀ bytes, decodeAll (encodeAll bytes) = .ok bytes
  openStore_commit : ∀ image store vectors, openStore image = .ok store →
    openStore (commit image vectors) = .ok { store with semanticEndpoints := vectors }
  openStore_part : ∀ image store part, openStore image = .ok store → part <+: image →
    part ≠ image → ∃ err, openStore part = .error err

section Program

variable (w : Surroundings) (path : String)

def zstSibling (path : String) : String := path ++ ".zst"

/-- A file is created and then filled; it may be left with any part of its bytes. -/
def writeFile (put : Bytes → Disk → Disk) (content : Bytes) : Steps Disk String Unit :=
  changes (fun n => put (content.take n)) (List.range (content.length + 1))

def ensureRawDb : Steps Disk String Unit := do
  let disk ← look .ok
  if disk.raw.isSome then pure ()
  else do
    let compressed ← look fun d => d.zst.elim
      (.error ("neither '" ++ path ++ "' nor '" ++ zstSibling path ++ "' exists")) .ok
    let decompressed ← look fun _ => (w.decodeAll compressed).mapError fun _ =>
      "failed to decompress '" ++ zstSibling path ++ "'"
    writeFile Disk.putRaw decompressed

def openStoreReadWrite : Steps Disk String Store :=
  look fun d => d.raw.elim (.error ("failed to open '" ++ path ++ "'")) w.openStore

/-- One statement on the vectors, in a transaction of its own. -/
def execute (statement : Vectors → Except String Vectors) : Steps Disk String Unit := do
  let store ← openStoreReadWrite w path
  let vectors ← look fun _ => statement store.semanticEndpoints
  change fun d => { d with raw := d.raw.map fun image => w.commit image vectors }

def populateRows : List EndpointRow → Steps Disk String Unit
  | [] => pure ()
  | row :: rest => do
    let vector ← look fun _ => (w.embed row.text).mapError fun err =>
      "failed to compute embedding for '" ++ row.operationId ++ "' in '" ++ path ++ "': " ++ err
    execute w path fun vectors => .ok (vectors.erase row.operationId)
    execute w path fun vectors =>
      insertVector w.dimension vectors row.operationId (vectorToLeBytes vector)
    populateRows rest

def populateOne : Steps Disk String ℕ := do
  let store ← openStoreReadWrite w path
  populateRows w path store.endpoints
  pure store.endpoints.length

def missingOperationIds : Steps Disk String (List String) := do
  let store ← openStoreReadWrite w path
  pure (PopulateEmbeddings.missingOperationIds store)

def recompressAndRemoveRaw : Steps Disk String Unit := do
  let raw ← look fun d => d.raw.elim (.error ("failed to read '" ++ path ++ "'")) .ok
  writeFile Disk.putZst (w.encodeAll raw)
  change Disk.removeRaw

def main : Steps Disk String Unit := do
  ensureRawDb w path
  let _count ← populateOne w path
  let missing ← missingOperationIds w path
  recompressAndRemoveRaw w path
  if missing = [] then pure ()
  else fail ("embedding population incomplete: one or more stores have semantic_endpoints " ++
    "row counts below their endpoints row counts (see errors above)")

end Program

section Specification

variable (w : Surroundings) (path : String) (rows : List EndpointRow)

/-- A file of a store with these operations. -/
def Keeps (image : Bytes) : Prop := ∃ store, w.openStore image = .ok store ∧ store.endpoints = rows

/-- The file that counts is one of a store with these operations. -/
def Usable (d : Disk) : Prop :=
  (∃ image, d.raw = some image ∧ Keeps w rows image) ∨
    d.raw = none ∧ ∃ compressed image, d.zst = some compressed ∧
      w.decodeAll compressed = .ok image ∧ Keeps w rows image

/-- Every operation of the store has the vector of its text. -/
def Complete (store : Store) : Prop :=
  ∀ row ∈ store.endpoints, ∃ vector, w.embed row.text = .ok vector ∧
    store.semanticEndpoints.get row.operationId = some (vectorToLeBytes vector)

/-- Only the compressed file is there, of a complete store with these operations. -/
def Published (d : Disk) : Prop :=
  d.raw = none ∧ ∃ compressed image store, d.zst = some compressed ∧
    w.decodeAll compressed = .ok image ∧ w.openStore image = .ok store ∧
      store.endpoints = rows ∧ Complete w store

/-- The next run adopts no damaged working copy, succeeds and publishes the store. -/
structure Recovers (d : Disk) : Prop where
  undamaged : ∀ image, d.raw = some image → Keeps w rows image
  succeeds : (main w path d).result = .ok ()
  publishes : Published w rows (main w path d).final

/-- A run is cut short and leaves the disk as given. -/
def interrupt (d t : Disk) : Option Disk := if t ∈ (main w path d).passed then some t else none

/-- The working copy is being written from the compressed file, and not complete. -/
def TearsRaw (d t : Disk) : Prop :=
  d.raw = none ∧ ∃ compressed image part, d.zst = some compressed ∧
    w.decodeAll compressed = .ok image ∧ part <+: image ∧ part ≠ image ∧ t = d.putRaw part

/-- The embedding model gives a vector of the table's dimension for every operation. -/
def Embeds : Prop :=
  ∀ row ∈ rows, ∃ vector, w.embed row.text = .ok vector ∧ vector.length = w.dimension

end Specification

section Passing

variable {w : Surroundings} (path : String)

/-- The working copy is there, with this store in it. -/
def Opens (w : Surroundings) (d : Disk) (store : Store) : Prop :=
  ∃ image, d.raw = some image ∧ w.openStore image = .ok store

theorem Opens.usable {d : Disk} {store : Store} (h : Opens w d store) :
    Usable w store.endpoints d := by
  obtain ⟨image, hraw, hopen⟩ := h
  exact Or.inl ⟨image, hraw, store, hopen, rfl⟩

theorem passes_writeFile {put : Bytes → Disk → Disk} (hput : ∀ a b d, put a (put b d) = put a d)
    {I : Disk → Prop} {d : Disk} {content : Bytes} (hd : I d)
    (hparts : ∀ part, part <+: content → I (put part d)) :
    Passes I (writeFile put content) d fun _ t => t = put content d := by
  have hpasses : Passes I (changes (fun n => put (content.take n))
      (List.range content.length ++ [content.length]) : Steps Disk String Unit) d
        fun _ t => t = put (content.take content.length) d := by
    apply Passes.changes
    · intro n m d
      exact hput _ _ d
    · exact hd
    · intro n _
      exact hparts _ (List.take_prefix n content)
  rw [List.take_length, ← List.range_succ] at hpasses
  exact hpasses

theorem passes_openStoreReadWrite {I : Disk → Prop} {d : Disk} {store : Store} (hd : I d)
    (h : Opens w d store) :
    Passes I (openStoreReadWrite w path) d fun opened t => store = opened ∧ d = t := by
  obtain ⟨image, hraw, hopen⟩ := h
  exact Passes.look hd (by rw [hraw, Option.elim_some, hopen]) ⟨rfl, rfl⟩

theorem passes_execute {d : Disk} {store : Store} (h : Opens w d store)
    {statement : Vectors → Except String Vectors} {vectors : Vectors}
    (hstatement : statement store.semanticEndpoints = .ok vectors) :
    Passes (Usable w store.endpoints) (execute w path statement) d fun _ t =>
      Opens w t { store with semanticEndpoints := vectors } := by
  refine Passes.bind (passes_openStoreReadWrite path h.usable h) ?_
  intro _ _ h'
  obtain ⟨rfl, rfl⟩ := h'
  refine Passes.bind (R := fun v t => vectors = v ∧ d = t) ?_ ?_
  · exact Passes.look h.usable hstatement ⟨rfl, rfl⟩
  · intro _ _ h'
    obtain ⟨rfl, rfl⟩ := h'
    obtain ⟨image, hraw, hopen⟩ := id h
    have hafter : Opens w { d with raw := d.raw.map fun image => w.commit image vectors }
        { store with semanticEndpoints := vectors } :=
      ⟨w.commit image vectors, by rw [hraw, Option.map_some],
        w.openStore_commit image store vectors hopen⟩
    exact Passes.change h.usable hafter.usable hafter

/-- Row by row the store goes through the transactions of the indexing, and ends with
the vectors that it leaves. -/
theorem passes_populateRows {d : Disk} {store : Store} (h : Opens w d store)
    {rows : List EndpointRow} {vectors : Vectors}
    (hrows : PopulateEmbeddings.populateRows w.embed w.dimension path rows store.semanticEndpoints =
      (.ok (), vectors)) :
    Passes (Usable w store.endpoints) (populateRows w path rows) d fun _ t =>
      Opens w t { store with semanticEndpoints := vectors } := by
  induction rows generalizing d store with
  | nil =>
    rw [PopulateEmbeddings.populateRows] at hrows
    obtain rfl := (Prod.mk.inj hrows).2
    exact Passes.pure h.usable h
  | cons row rest ih =>
    rw [PopulateEmbeddings.populateRows] at hrows
    cases hembed : w.embed row.text with
    | error err =>
      rw [hembed] at hrows
      have herror := (Prod.mk.inj hrows).1
      contradiction
    | ok vector =>
      rw [hembed] at hrows
      cases hinsert : insertVector w.dimension (store.semanticEndpoints.erase row.operationId)
          row.operationId (vectorToLeBytes vector) with
      | error err =>
        simp only [hinsert] at hrows
        have herror := (Prod.mk.inj hrows).1
        contradiction
      | ok inserted =>
        simp only [hinsert] at hrows
        refine Passes.bind (R := fun v t => vector = v ∧ d = t) ?_ ?_
        · exact Passes.look h.usable (by rw [hembed]; rfl) ⟨rfl, rfl⟩
        · intro _ _ h'
          obtain ⟨rfl, rfl⟩ := h'
          refine Passes.bind (passes_execute path h rfl) ?_
          intro _ t ht
          refine Passes.bind (passes_execute path ht hinsert) ?_
          intro _ u hu
          have hrest := ih hu hrows
          exact hrest

/-- The vectors of all operations are there, and each can be inserted. -/
theorem exists_inserted {rows : List EndpointRow} (h : Embeds w rows) :
    ∃ inserted, List.Forall₂ (Indexes w.embed) rows inserted ∧
      ∀ e ∈ inserted, e.2.length = 4 * w.dimension := by
  induction rows with
  | nil => exact ⟨[], .nil, nofun⟩
  | cons row rest ih =>
    obtain ⟨vector, hembed, hlength⟩ := h row List.mem_cons_self
    obtain ⟨inserted, hindexes, hlengths⟩ := ih fun r hr => h r (List.mem_cons_of_mem row hr)
    refine ⟨(row.operationId, vectorToLeBytes vector) :: inserted,
      .cons ⟨rfl, vector, hembed, rfl⟩ hindexes, List.forall_mem_cons.mpr ⟨?_, hlengths⟩⟩
    show (vectorToLeBytes vector).length = 4 * w.dimension
    rw [length_vectorToLeBytes, hlength]

theorem populateOne_eq_ok {store : Store} (h : Embeds w store.endpoints) :
    ∃ after, PopulateEmbeddings.populateOne w.embed w.dimension path store =
      (.ok store.endpoints.length, after) := by
  obtain ⟨inserted, hindexes, hlengths⟩ := exists_inserted h
  have hok := populateRows_succeeds w.embed w.dimension path hindexes hlengths
    store.semanticEndpoints
  refine ⟨_, Prod.ext ?_ rfl⟩
  simp only [PopulateEmbeddings.populateOne, hok]
  rfl

theorem passes_populateOne {d : Disk} {store after : Store} {count : ℕ} (h : Opens w d store)
    (hafter : PopulateEmbeddings.populateOne w.embed w.dimension path store = (.ok count, after)) :
    Passes (Usable w store.endpoints) (populateOne w path) d fun _ t => Opens w t after := by
  obtain ⟨hresult, rfl⟩ := Prod.mk.inj hafter
  refine Passes.bind (passes_openStoreReadWrite path h.usable h) ?_
  intro _ _ h'
  obtain ⟨rfl, rfl⟩ := h'
  refine Passes.bind (passes_populateRows path h (Prod.ext ?_ rfl)) ?_
  · cases hrows : (PopulateEmbeddings.populateRows w.embed w.dimension path store.endpoints
        store.semanticEndpoints).1 with
    | ok u => rfl
    | error err =>
      rw [hrows] at hresult
      contradiction
  · intro _ t ht
    exact Passes.pure ht.usable ht

/-- The indexing of a store leaves the vector of its text for every operation. -/
theorem complete_of_populateOne {store after : Store} {count : ℕ}
    (h : PopulateEmbeddings.populateOne w.embed w.dimension path store = (.ok count, after)) :
    after.endpoints = store.endpoints ∧ Complete w after := by
  obtain ⟨hendpoints, inserted, hentries, hindexes, -⟩ := populateOne_ok w.embed w.dimension path h
  refine ⟨hendpoints, ?_⟩
  intro row hrow
  rw [hendpoints] at hrow
  obtain ⟨i, hi, rfl⟩ := List.mem_iff_getElem.mp hrow
  have hi' : i < inserted.length := hindexes.length_eq ▸ hi
  obtain ⟨hid, vector, hembed, hblob⟩ := hindexes.get hi hi'
  refine ⟨vector, hembed, (get_eq_some_iff _ _ _).mpr ?_⟩
  rw [hentries]
  refine List.mem_append_right _ (List.mem_iff_getElem.mpr ⟨i, hi', ?_⟩)
  exact Prod.ext hid hblob

/-- While the working copy is there, a run may stop anywhere. -/
theorem passes_recompressAndRemoveRaw {d : Disk} {store : Store} (h : Opens w d store)
    (hcomplete : Complete w store) :
    Passes (Usable w store.endpoints) (recompressAndRemoveRaw w path) d fun _ t =>
      Published w store.endpoints t := by
  obtain ⟨image, hraw, hopen⟩ := id h
  refine Passes.bind (R := fun bytes t => image = bytes ∧ d = t) ?_ ?_
  · exact Passes.look h.usable (by rw [hraw, Option.elim_some]) ⟨rfl, rfl⟩
  · intro _ _ h'
    obtain ⟨rfl, rfl⟩ := h'
    have hwritten : ∀ part, Opens w (d.putZst part) store := fun part => ⟨image, hraw, hopen⟩
    have hwrite : Passes (Usable w store.endpoints) (writeFile Disk.putZst (w.encodeAll image)) d
        fun _ t => t = d.putZst (w.encodeAll image) := by
      apply passes_writeFile
      · intro _ _ _
        rfl
      · exact h.usable
      · intro part _
        exact (hwritten part).usable
    refine Passes.bind hwrite ?_
    intro _ t h'
    subst h'
    have hpublished : Published w store.endpoints (d.putZst (w.encodeAll image)).removeRaw :=
      ⟨rfl, w.encodeAll image, image, store, rfl, w.decodeAll_encodeAll image, hopen, rfl,
        hcomplete⟩
    refine Passes.change (hwritten _).usable ?_ hpublished
    exact Or.inr ⟨rfl, w.encodeAll image, image, rfl, w.decodeAll_encodeAll image,
      store, hopen, rfl⟩

/-- The working copy is there afterwards; only while it is being written may it be
torn. -/
theorem passes_ensureRawDb {d : Disk} {rows : List EndpointRow} (h : Usable w rows d) :
    Passes (fun t => Usable w rows t ∨ TearsRaw w d t) (ensureRawDb w path) d fun _ t =>
      ∃ store, Opens w t store ∧ store.endpoints = rows := by
  refine Passes.bind (R := fun disk t => d = disk ∧ d = t) ?_ ?_
  · exact Passes.look (Or.inl h) rfl ⟨rfl, rfl⟩
  intro _ _ h'
  obtain ⟨rfl, rfl⟩ := h'
  obtain ⟨image, hraw, store, hopen, hrows⟩ | ⟨hraw, compressed, image, hzst, hdecode, store, hopen,
    hrows⟩ := id h
  · rw [if_pos (by rw [hraw]; rfl)]
    exact Passes.pure (Or.inl h) ⟨store, ⟨image, hraw, hopen⟩, hrows⟩
  · rw [if_neg (by rw [hraw]; exact nofun)]
    refine Passes.bind (R := fun bytes t => compressed = bytes ∧ d = t) ?_ ?_
    · exact Passes.look (Or.inl h) (by rw [hzst, Option.elim_some]) ⟨rfl, rfl⟩
    intro _ _ h'
    obtain ⟨rfl, rfl⟩ := h'
    refine Passes.bind (R := fun bytes t => image = bytes ∧ d = t) ?_ ?_
    · exact Passes.look (Or.inl h) (by rw [hdecode]; rfl) ⟨rfl, rfl⟩
    intro _ _ h'
    obtain ⟨rfl, rfl⟩ := h'
    have hwhole : Opens w (d.putRaw image) store := ⟨image, rfl, hopen⟩
    have hwrite : Passes (fun t => Usable w rows t ∨ TearsRaw w d t)
        (writeFile Disk.putRaw image) d fun _ t => t = d.putRaw image := by
      apply passes_writeFile
      · intro _ _ _
        rfl
      · exact Or.inl h
      · intro part hpart
        by_cases hall : part = image
        · left
          rw [hall, ← hrows]
          exact hwhole.usable
        · exact Or.inr ⟨hraw, compressed, image, part, hzst, hdecode, hpart, hall, rfl⟩
    refine hwrite.mono (fun _ ht => ht) ?_
    intro _ t h'
    subst h'
    exact ⟨store, hwhole, hrows⟩

/-- A run from a usable disk publishes the store, and is on the way in no other state
than a usable one or that of a torn working copy. -/
theorem passes_main {d : Disk} {rows : List EndpointRow} (h : Usable w rows d)
    (hembeds : Embeds w rows) :
    Passes (fun t => Usable w rows t ∨ TearsRaw w d t) (main w path) d fun _ t =>
      Published w rows t := by
  refine Passes.bind (passes_ensureRawDb path h) ?_
  intro _ t h'
  obtain ⟨store, hstore, rfl⟩ := h'
  obtain ⟨after, hafter⟩ := populateOne_eq_ok path hembeds
  obtain ⟨hendpoints, hcomplete⟩ := complete_of_populateOne path hafter
  refine Passes.bind
    ((passes_populateOne path hstore hafter).mono (fun _ => Or.inl) fun _ _ ht => ht) ?_
  intro _ u hu
  have husable : Usable w store.endpoints u := hendpoints ▸ hu.usable
  refine Passes.bind (R := fun missing v => [] = missing ∧ u = v) ?_ ?_
  · refine Passes.bind (passes_openStoreReadWrite path (Or.inl husable) hu) ?_
    intro _ _ h'
    obtain ⟨rfl, rfl⟩ := h'
    have hmissing := missingOperationIds_after w.embed w.dimension path store after _ hafter
    exact Passes.pure (Or.inl husable) ⟨hmissing.symm, rfl⟩
  · intro _ _ h'
    obtain ⟨rfl, rfl⟩ := h'
    have hpasses := passes_recompressAndRemoveRaw path hu hcomplete
    rw [hendpoints] at hpasses
    refine Passes.bind (hpasses.mono (fun _ => Or.inl) fun _ _ ht => ht) ?_
    intro _ v hv
    rw [if_pos rfl]
    refine Passes.pure (Or.inl (Or.inr ?_)) hv
    obtain ⟨hraw, compressed, image, last, hzst, hdecode, hopen, hlast, -⟩ := hv
    exact ⟨hraw, compressed, image, hzst, hdecode, last, hopen, hlast⟩

theorem interrupt_eq_some_iff {d t t' : Disk} :
    interrupt w path d t = some t' ↔ t ∈ (main w path d).passed ∧ t = t' := by
  unfold interrupt
  by_cases hmem : t ∈ (main w path d).passed
  · rw [if_pos hmem, Option.some.injEq, and_iff_right hmem]
  · rw [if_neg hmem]
    exact iff_of_false (Option.some_ne_none t').symm fun h => hmem h.1

theorem recovers_of_usable {d : Disk} {rows : List EndpointRow} (h : Usable w rows d)
    (hembeds : Embeds w rows) : Recovers w path rows d := by
  obtain ⟨_, hresult, hpublished⟩ := (passes_main path h hembeds).ends
  refine ⟨?_, hresult, hpublished⟩
  intro image himage
  obtain ⟨image', hraw, hkeeps⟩ | ⟨hraw, -⟩ := h
  · rw [hraw] at himage
    rw [← Option.some.inj himage]
    exact hkeeps
  · rw [hraw] at himage
    contradiction

/-- A working copy that exists is left as it is, whatever is in it. -/
theorem final_ensureRawDb {t : Disk} (h : t.raw.isSome = true) :
    (ensureRawDb w path t).final = t := by
  have hlook : ((look .ok : Steps Disk String Disk) t).result = .ok t := rfl
  rw [ensureRawDb, bind_eq_of_ok hlook]
  dsimp only
  rw [if_pos h]
  rfl

/-- A run that finds a working copy that is no store takes it as it is, and fails. -/
theorem main_fails {t : Disk} {part : Bytes} {err : String} (hraw : t.raw = some part)
    (hopen : w.openStore part = .error err) : (main w path t).result ≠ .ok () := by
  intro hok
  obtain ⟨_, -, hrest⟩ := exists_of_bind_ok hok
  rw [final_ensureRawDb path (by rw [hraw]; rfl)] at hrest
  obtain ⟨_, hpopulate, -⟩ := exists_of_bind_ok hrest
  obtain ⟨store, hstore, -⟩ := exists_of_bind_ok hpopulate
  have hlook : t.raw.elim (.error ("failed to open '" ++ path ++ "'")) w.openStore =
      .ok store := hstore
  rw [hraw, Option.elim_some, hopen] at hlook
  contradiction

/-- A torn working copy is a proper part of a store's file. -/
theorem not_recovers_of_tearsRaw {d t : Disk} {rows : List EndpointRow} (h : Usable w rows d)
    (htorn : TearsRaw w d t) : ¬ Recovers w path rows t := by
  intro hrecovers
  obtain ⟨hnone, compressed, image, part, hzst, hdecode, hpart, hne, rfl⟩ := htorn
  obtain ⟨image', hsome, -⟩ | ⟨-, compressed', image', hzst', hdecode', store, hopen, -⟩ := h
  · rw [hnone] at hsome
    contradiction
  · rw [hzst] at hzst'
    obtain rfl := Option.some.inj hzst'
    rw [hdecode] at hdecode'
    obtain rfl := Except.ok.inj hdecode'
    obtain ⟨err, herr⟩ := w.openStore_part image store part hopen hpart hne
    exact main_fails path rfl herr hrecovers.succeeds

end Passing

section Sample

/-- A number in a form of which no part is a number. -/
def unary (n : ℕ) : Bytes := List.replicate n 1 ++ [0]

def readUnary (bytes : Bytes) : Option ℕ :=
  if bytes = unary (bytes.length - 1) then some (bytes.length - 1) else none

theorem length_unary (n : ℕ) : (unary n).length = n + 1 := by
  rw [unary, List.length_append, List.length_replicate, List.length_singleton]

theorem readUnary_unary (n : ℕ) : readUnary (unary n) = some n := by
  rw [readUnary, length_unary, Nat.add_sub_cancel, if_pos rfl]

theorem readUnary_eq_some_iff (bytes : Bytes) (n : ℕ) :
    readUnary bytes = some n ↔ bytes = unary n := by
  constructor
  · intro h
    unfold readUnary at h
    split at h
    · rename_i heq
      rw [← Option.some.inj h]
      exact heq
    · contradiction
  · intro h'
    subst h'
    exact readUnary_unary n

theorem eq_of_unary_isPrefix {m n : ℕ} (h : unary m <+: unary n) : m = n := by
  have hle := h.length_le
  rw [length_unary, length_unary] at hle
  by_contra hne
  have hm : m < (unary m).length := by
    rw [length_unary]
    omega
  have hmn : m < (List.replicate n (1 : UInt8)).length := by
    rw [List.length_replicate]
    omega
  obtain ⟨rest, hrest⟩ := h
  have hzero : (unary n)[m]? = some 0 := by
    rw [← hrest, List.getElem?_append_left hm]
    simp [unary]
  have hone : (unary n)[m]? = some 1 := by
    rw [unary, List.getElem?_append_left hmn, List.getElem?_replicate_of_lt (by omega)]
  exact absurd (hzero.symm.trans hone) (by decide)

/-- Rows of vectors as lists of numbers. -/
def numbers (rows : Entries String (List UInt8)) : List (List ℕ × List ℕ) :=
  rows.map fun e => (e.1.toList.map Char.toNat, e.2.map UInt8.toNat)

def rowsOf (ns : List (List ℕ × List ℕ)) : Entries String (List UInt8) :=
  ns.map fun e => (String.ofList (e.1.map Char.ofNat), e.2.map UInt8.ofNat)

theorem rowsOf_numbers (rows : Entries String (List UInt8)) : rowsOf (numbers rows) = rows := by
  simp [rowsOf, numbers, Function.comp_def]

/-- The file of a store of one operation. -/
def sampleImage (vectors : Vectors) : Bytes := unary (Encodable.encode (numbers vectors.entries))

def sampleOpen (image : Bytes) : Except String Store :=
  match (readUnary image).bind fun n => (Encodable.decode n : Option (List (List ℕ × List ℕ))) with
  | none => .error "no such table: endpoints"
  | some ns =>
    if h : DistinctKeys (rowsOf ns) then .ok (sampleStore ⟨rowsOf ns, h⟩)
    else .error "database disk image is malformed"

theorem sampleOpen_sampleImage (vectors : Vectors) :
    sampleOpen (sampleImage vectors) = .ok (sampleStore vectors) := by
  have hrows := rowsOf_numbers vectors.entries
  have hdistinct : DistinctKeys (rowsOf (numbers vectors.entries)) := by
    rw [hrows]
    exact vectors.distinct
  have hvectors : (⟨rowsOf (numbers vectors.entries), hdistinct⟩ : Vectors) = vectors :=
    Map.ext hrows
  rw [sampleOpen, sampleImage, readUnary_unary, Option.bind_some, Encodable.encodek]
  simp only [hdistinct, dif_pos, hvectors]

theorem exists_of_sampleOpen {image : Bytes} {store : Store} (h : sampleOpen image = .ok store) :
    (∃ n, readUnary image = some n) ∧ ∃ vectors, store = sampleStore vectors := by
  unfold sampleOpen at h
  split at h
  · contradiction
  · rename_i ns hns
    obtain ⟨n, hn, -⟩ := Option.bind_eq_some_iff.mp hns
    refine ⟨⟨n, hn⟩, ?_⟩
    split at h
    · exact ⟨_, (Except.ok.inj h).symm⟩
    · contradiction

def magic : Bytes := [0x28, 0xB5, 0x2F, 0xFD]

/-- Files of one operation in a frame, and a model that gives one number for any text. -/
def sample : Surroundings where
  decodeAll bytes :=
    if bytes.take 4 = magic then .ok (bytes.drop 4) else .error "Unknown frame descriptor"
  encodeAll bytes := magic ++ bytes
  openStore := sampleOpen
  commit _ := sampleImage
  embed _ := .ok [0]
  dimension := 1
  decodeAll_encodeAll _ := rfl
  openStore_commit image store vectors h := by
    obtain ⟨-, before, rfl⟩ := exists_of_sampleOpen h
    exact sampleOpen_sampleImage vectors
  openStore_part image store part h hpart hne := by
    cases hopen : sampleOpen part with
    | error err => exact ⟨err, rfl⟩
    | ok store' =>
      obtain ⟨n, hn⟩ := (exists_of_sampleOpen h).1
      obtain ⟨m, hm⟩ := (exists_of_sampleOpen hopen).1
      rw [readUnary_eq_some_iff] at hn hm
      subst hn hm
      exact absurd (congrArg unary (eq_of_unary_isPrefix hpart)) hne

/-- Only the compressed file is there, of a store without vectors. -/
def compressedOnly : Disk := ⟨none, some (magic ++ [0])⟩

theorem interrupt_of_mem {w : Surroundings} {path : String} {d t : Disk}
    (h : t ∈ (ensureRawDb w path d).passed) : interrupt w path d t = some t :=
  (interrupt_eq_some_iff path).mpr ⟨mem_passed_of_left h, rfl⟩

end Sample

/-- After any interruptions of runs on a store the next run recovers exactly when none
of them came while the working copy was being written. -/
theorem recovers_iff (w : Surroundings) (path : String) (d : Disk) (compressed image : Bytes)
    (store : Store) (hraw : d.raw = none) (hzst : d.zst = some compressed)
    (hdecode : w.decodeAll compressed = .ok image) (hopen : w.openStore image = .ok store)
    (hembeds : Embeds w store.endpoints) (interruptions : List Disk) (last : Disk)
    (hrun : run (interrupt w path) d interruptions = some last) :
    (∀ t, Reached (interrupt w path) d interruptions t → Recovers w path store.endpoints t) ↔
      Along (interrupt w path) (fun u t => ¬ TearsRaw w u t) d interruptions := by
  apply forall_reached_iff_along (I := Usable w store.endpoints)
  · intro u t t' hu hwhole hstep
    obtain ⟨hmem, rfl⟩ := (interrupt_eq_some_iff path).mp hstep
    exact ((passes_main path hu hembeds).safe t hmem).resolve_right hwhole
  · intro u hu
    exact recovers_of_usable path hu hembeds
  · intro u t t' hu htorn hstep
    obtain ⟨-, rfl⟩ := (interrupt_eq_some_iff path).mp hstep
    exact not_recovers_of_tearsRaw path hu (not_not.mp htorn)
  · exact Or.inr ⟨hraw, compressed, image, hzst, hdecode, store, hopen, rfl⟩
  · exact hrun

theorem recovers_iff_compressedOnly :
    (∀ t, Reached (interrupt sample "store.db") compressedOnly
        [⟨some [0], some (magic ++ [0])⟩] t → Recovers sample "store.db" [sampleRow] t) ↔
      Along (interrupt sample "store.db") (fun u t => ¬ TearsRaw sample u t) compressedOnly
        [⟨some [0], some (magic ++ [0])⟩] := by
  have hrun : run (interrupt sample "store.db") compressedOnly
      [⟨some [0], some (magic ++ [0])⟩] = some ⟨some [0], some (magic ++ [0])⟩ := by
    rw [run_cons_of_step (interrupt_of_mem (by decide))]
    rfl
  exact recovers_iff sample "store.db" compressedOnly (magic ++ [0]) [0] (sampleStore Map.empty)
    rfl rfl rfl (sampleOpen_sampleImage Map.empty) (fun _ _ => ⟨[0], rfl, rfl⟩) _ _ hrun

/-- A run that is cut short when the working copy has just been created leaves an empty
file, which the next run takes for the store. -/
theorem not_recovers_created :
    ¬ ∀ (w : Surroundings) (path : String) (d : Disk) (compressed image : Bytes) (store : Store),
      d.raw = none → d.zst = some compressed → w.decodeAll compressed = .ok image →
      w.openStore image = .ok store → Embeds w store.endpoints →
        ∀ (interruptions : List Disk) (last : Disk),
          run (interrupt w path) d interruptions = some last →
            ∀ t, Reached (interrupt w path) d interruptions t →
              Recovers w path store.endpoints t := by
  intro h
  have hrun : run (interrupt sample "store.db") compressedOnly
      [⟨some [], some (magic ++ [0])⟩] = some ⟨some [], some (magic ++ [0])⟩ := by
    rw [run_cons_of_step (interrupt_of_mem (by decide))]
    rfl
  have hrecovers := h sample "store.db" compressedOnly (magic ++ [0]) [0] (sampleStore Map.empty)
    rfl rfl rfl (sampleOpen_sampleImage Map.empty) (fun _ _ => ⟨[0], rfl, rfl⟩) _ _ hrun _
    (reached_last hrun)
  exact main_fails (w := sample) "store.db" rfl rfl hrecovers.succeeds

end SqlServerMcp.PopulateRun
