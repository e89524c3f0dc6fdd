import SqlServerMcp.KeyedCache
import SqlServerMcp.Runs
import SqlServerMcp.SharedFiles
import SqlServerMcp.Text

/-!
Extraction of the embedded stores. Every call writes its image of the store to a
file of its own in the shared temporary directory, renames that over the store
file, and then opens the store file by its name, which another process may have
renamed over in between. The image read first is kept for the rest of the
process.
-/
namespace SqlServerMcp.StorePath

open AssocMap Function KeyedCache Runs SharedFiles Text

abbrev Bytes := List UInt8

def versionStoreFiles : List (String × String) :=
  [("2025", "mcp_store.db"),
   ("2022", "mcp_store_v2022.db"),
   ("2019", "mcp_store_v2019.db"),
   ("2017", "mcp_store_v2017.db")]

/-- The stores that a build of the program embeds: the file and the compressed
bytes of each version. No store file has the name of a temporary one. -/
structure Build where
  storeFiles : List (String × String)
  storeBytes : List (String × Bytes)
  plain : ∀ entry ∈ storeFiles, endsWith entry.2 ".tmp" = false

/-- A build with the files of this one. -/
def Build.ofBytes (storeBytes : List (String × Bytes)) : Build where
  storeFiles := versionStoreFiles
  storeBytes := storeBytes
  plain := by decide

section Resolve

variable (decodeAll : Bytes → Except String Bytes)

/-- The file and the decompressed image of a version. -/
def resolveStore (build : Build) (apiVersion : String) : Except String (String × Bytes) :=
  match build.storeFiles.lookup apiVersion with
  | none => .error ("unknown api_version '" ++ apiVersion ++
      "' — run the 'versions' command to see what's available")
  | some file =>
    match build.storeBytes.lookup apiVersion with
    | none => .error ("no embedded store data for api_version '" ++ apiVersion ++ "'")
    | some bytes =>
      match decodeAll bytes with
      | .error _ => .error ("failed to decompress embedded store data for api_version '" ++
          apiVersion ++ "'")
      | .ok image => .ok (file, image)

end Resolve

/-- The name of the file that a call writes to: the number counts the files of
the process. -/
def tmpName (file : String) (pid number : ℕ) : String :=
  file ++ "." ++ toString pid ++ "." ++ toString number ++ ".tmp"

/-- How far a call has got. The store file is opened only when the cache has no
connection for the version yet. -/
inductive Phase where
  | decompressed (file : String) (image : Bytes)
  | writing (file : String) (number handle : ℕ) (rest : Bytes)
  | renamed (file : String)
  | missed (file : String)
  | opened (handle : ℕ)
  | copied (image : Bytes)
  | returned (image : Bytes)
  | failed (message : String)

structure Call where
  pid : ℕ
  apiVersion : String
  phase : Phase

/-- The shared directory; the file counter and the cached connections of each
process; and the calls. -/
structure State where
  dir : Directory String UInt8
  unique : ℕ → ℕ
  cache : ℕ → Entries String Bytes
  calls : ℕ → Option Call

def initial (dir : Directory String UInt8) : State where
  dir := dir
  unique _ := 0
  cache _ := []
  calls _ := none

/-- The steps of a call: from the first to the last, or a failure on the way. A
file is written in any number of parts. -/
inductive Event where
  | call (c pid : ℕ) (apiVersion : String)
  | create (c : ℕ)
  | write (c count : ℕ)
  | rename (c : ℕ)
  | lookup (c : ℕ)
  | openStore (c : ℕ)
  | backup (c : ℕ)
  | store (c : ℕ)
  | fail (c : ℕ) (message : String)

def State.setPhase (s : State) (c : ℕ) (call : Call) (phase : Phase) : State :=
  { s with calls := update s.calls c (some { call with phase := phase }) }

section Step

variable (decodeAll : Bytes → Except String Bytes) (build : ℕ → Build)

/-- The first phase of a call. -/
def startPhase (pid : ℕ) (apiVersion : String) : Phase :=
  match resolveStore decodeAll (build pid) apiVersion with
  | .ok (file, image) => .decompressed file image
  | .error message => .failed message

/-- One step of one call, by the phase that the call is in. -/
def stepCall (s : State) (c : ℕ) (call : Call) : Event → Option State
  | .create _ =>
    match call.phase with
    | .decompressed file image =>
      let number := s.unique call.pid
      let created := s.dir.create (tmpName file call.pid number)
      some ({ s with
        dir := created.1
        unique := update s.unique call.pid (number + 1) }.setPhase c call
          (.writing file number created.2 image))
    | _ => none
  | .write _ count =>
    match call.phase with
    | .writing file number handle rest =>
      some ({ s with dir := s.dir.append handle (rest.take count) }.setPhase c call
        (.writing file number handle (rest.drop count)))
    | _ => none
  | .rename _ =>
    match call.phase with
    | .writing file number _ [] =>
      (s.dir.rename (tmpName file call.pid number) file).map fun dir =>
        { s with dir := dir }.setPhase c call (.renamed file)
    | _ => none
  | .lookup _ =>
    match call.phase with
    | .renamed file =>
      match (s.cache call.pid).lookup call.apiVersion with
      | some image => some (s.setPhase c call (.returned image))
      | none => some (s.setPhase c call (.missed file))
    | _ => none
  | .openStore _ =>
    match call.phase with
    | .missed file => (s.dir.entry file).map fun handle => s.setPhase c call (.opened handle)
    | _ => none
  | .backup _ =>
    match call.phase with
    | .opened handle => some (s.setPhase c call (.copied (s.dir.content handle)))
    | _ => none
  | .store _ =>
    match call.phase with
    | .copied image =>
      let cached := orInsert (s.cache call.pid) call.apiVersion image
      some ({ s with cache := update s.cache call.pid cached.1 }.setPhase c call
        (.returned cached.2))
    | _ => none
  | .fail _ message =>
    match call.phase with
    | .returned _ | .failed _ => none
    | _ => some (s.setPhase c call (.failed message))
  | .call _ _ _ => none

def Event.caller : Event → ℕ
  | .call c _ _ | .create c | .write c _ | .rename c | .lookup c | .openStore c | .backup c
  | .store c | .fail c _ => c

def step (s : State) (e : Event) : Option State :=
  match s.calls e.caller with
  | some call => stepCall s e.caller call e
  | none =>
    match e with
    | .call c pid apiVersion =>
      let phase := startPhase decodeAll build pid apiVersion
      some { s with calls := update s.calls c (some ⟨pid, apiVersion, phase⟩) }
    | _ => none

end Step

theorem append_string_right_cancel {a b t : String} (h : a ++ t = b ++ t) : a = b := by
  have hchars := congrArg String.toList h
  simp only [String.toList_append, List.append_left_inj] at hchars
  exact String.toList_injective hchars

theorem tmpName_injective {file file' : String} {pid pid' number number' : ℕ}
    (h : tmpName file pid number = tmpName file' pid' number') : pid = pid' ∧ number = number' := by
  unfold tmpName at h
  obtain ⟨hname, hnumber⟩ := append_number_string_injective rfl rfl (append_string_right_cancel h)
  exact ⟨(append_number_string_injective rfl rfl hname).2, hnumber⟩

theorem endsWith_tmpName (file : String) (pid number : ℕ) :
    endsWith (tmpName file pid number) ".tmp" = true := by
  rw [endsWith, decide_eq_true_iff, tmpName, String.toList_append]
  exact List.suffix_append _ _

section Invariant

variable (decodeAll : Bytes → Except String Bytes) (build : ℕ → Build)

/-- The store file and the image that a call is meant to serve. -/
def Wants (pid : ℕ) (apiVersion file : String) (image : Bytes) : Prop :=
  resolveStore decodeAll (build pid) apiVersion = .ok (file, image)

-- What a process may serve for a version.
variable (Serves : ℕ → String → Bytes → Prop)

/-- What is known of a call by its phase. Its own file has what is written so far
under a name that no other call writes to; the store file, once it is renamed
over, has something that the call may serve; and an opened file is out of reach
of every writer. -/
def PhaseHolds (dir : Directory String UInt8) (unique : ℕ → ℕ) (call : Call) : Phase → Prop
  | .decompressed file image => Wants decodeAll build call.pid call.apiVersion file image
  | .writing file number handle rest =>
    number < unique call.pid ∧ dir.entry (tmpName file call.pid number) = some handle ∧
      Wants decodeAll build call.pid call.apiVersion file (dir.content handle ++ rest)
  | .renamed file | .missed file =>
    (∃ image, Wants decodeAll build call.pid call.apiVersion file image) ∧
      ∃ handle, dir.entry file = some handle ∧
        Serves call.pid call.apiVersion (dir.content handle)
  | .opened handle =>
    handle < dir.next ∧ (∀ name, dir.entry name = some handle → endsWith name ".tmp" = false) ∧
      Serves call.pid call.apiVersion (dir.content handle)
  | .copied image | .returned image => Serves call.pid call.apiVersion image
  | .failed _ => True

structure Invariant (s : State) : Prop where
  wellFormed : s.dir.WellFormed
  phase : ∀ c call, s.calls c = some call →
    PhaseHolds decodeAll build Serves s.dir s.unique call call.phase
  numbers : ∀ c c' call call' file file' number handle handle' rest rest',
    s.calls c = some call → s.calls c' = some call' → call.pid = call'.pid →
      call.phase = .writing file number handle rest →
        call'.phase = .writing file' number handle' rest' → c = c'
  cached : ∀ pid apiVersion image, (s.cache pid).lookup apiVersion = some image →
    Serves pid apiVersion image

variable {decodeAll build}

theorem Wants.plain {pid : ℕ} {apiVersion file : String} {image : Bytes}
    (h : Wants decodeAll build pid apiVersion file image) : endsWith file ".tmp" = false := by
  unfold Wants resolveStore at h
  cases hfile : (build pid).storeFiles.lookup apiVersion with
  | none =>
    rw [hfile] at h
    contradiction
  | some found =>
    rw [hfile] at h
    have hplain : endsWith found ".tmp" = false := by
      obtain ⟨before, after, hsplit, -⟩ := List.lookup_eq_some_iff.mp hfile
      refine (build pid).plain (apiVersion, found) ?_
      rw [hsplit]
      exact List.mem_append_right _ List.mem_cons_self
    dsimp only at h
    split at h
    · contradiction
    · split at h
      · contradiction
      · obtain ⟨rfl, -⟩ := Prod.mk.inj (Except.ok.inj h)
        exact hplain

theorem Wants.ne_tmpName {pid pid' number : ℕ} {apiVersion file file' : String} {image : Bytes}
    (h : Wants decodeAll build pid apiVersion file image) : file ≠ tmpName file' pid' number := by
  intro heq
  have hplain := h.plain
  rw [heq, endsWith_tmpName] at hplain
  contradiction

variable {Serves} {dir dir' : Directory String UInt8} {unique : ℕ → ℕ}

/-- Another call creates its file: its name is new to every call, and no file
that is read has it. -/
theorem PhaseHolds.create (hdir : dir.WellFormed) (file : String) (pid : ℕ) {call : Call}
    {phase : Phase} (h : PhaseHolds decodeAll build Serves dir unique call phase) :
    PhaseHolds decodeAll build Serves (dir.create (tmpName file pid (unique pid))).1
      (update unique pid (unique pid + 1)) call phase := by
  have hkeep : ∀ {name handle}, name ≠ tmpName file pid (unique pid) →
      dir.entry name = some handle →
        (dir.create (tmpName file pid (unique pid))).1.entry name = some handle ∧
          (dir.create (tmpName file pid (unique pid))).1.content handle = dir.content handle := by
    intro name handle hname hentry
    refine ⟨(Directory.entry_create_of_ne hname).trans hentry, ?_⟩
    refine Directory.content_create_of_ne (Directory.ne_create_file (hdir.lt_next _ _ hentry) ?_)
    intro htmp
    exact hname (hdir.injective _ _ handle hentry htmp)
  cases phase with
  | decompressed | copied | returned | failed => exact h
  | writing file' number handle rest =>
    obtain ⟨hnumber, hentry, hwants⟩ := h
    have hname : tmpName file' call.pid number ≠ tmpName file pid (unique pid) := by
      intro heq
      obtain ⟨hpid, hnum⟩ := tmpName_injective heq
      rw [hpid] at hnumber
      omega
    obtain ⟨hentry', hcontent⟩ := hkeep hname hentry
    refine ⟨?_, hentry', hcontent ▸ hwants⟩
    by_cases hpid : call.pid = pid
    · rw [hpid, update_self]
      rw [hpid] at hnumber
      omega
    · rw [update_of_ne hpid]
      exact hnumber
  | renamed file' | missed file' =>
    obtain ⟨⟨image, hwants⟩, handle, hentry, hserves⟩ := h
    obtain ⟨hentry', hcontent⟩ := hkeep hwants.ne_tmpName hentry
    exact ⟨⟨image, hwants⟩, handle, hentry', hcontent ▸ hserves⟩
  | opened handle =>
    obtain ⟨hlt, hnames, hserves⟩ := h
    have hother : handle ≠ (dir.create (tmpName file pid (unique pid))).2 := by
      refine Directory.ne_create_file hlt ?_
      intro hentry
      have hplain := hnames _ hentry
      rw [endsWith_tmpName] at hplain
      contradiction
    refine ⟨Nat.lt_of_lt_of_le hlt Directory.next_le_create, ?_, ?_⟩
    · intro name hentry
      by_cases hname : name = tmpName file pid (unique pid)
      · rw [hname, Directory.entry_create_self] at hentry
        exact absurd (Option.some.inj hentry).symm hother
      · rw [Directory.entry_create_of_ne hname] at hentry
        exact hnames name hentry
    · rw [Directory.content_create_of_ne hother]
      exact hserves

/-- Two calls that write never write to one file: they differ in their number
or in their process. -/
theorem tmpName_ne_of_other {file file' : String} {pid pid' number number' handle' : ℕ}
    {rest' : Bytes}
    (h : Phase.writing file' number' handle' rest' ≠ .writing file' number handle' rest' ∨
      pid' ≠ pid) : tmpName file' pid' number' ≠ tmpName file pid number := by
  intro heq
  obtain ⟨hpid, rfl⟩ := tmpName_injective heq
  rcases h with hnumber | hpid'
  · exact hnumber rfl
  · exact hpid' hpid

/-- Another call writes to its file, which only it writes to. -/
theorem PhaseHolds.append (hdir : dir.WellFormed) {file : String} {pid number handle : ℕ}
    (hfile : dir.entry (tmpName file pid number) = some handle) (bytes : Bytes) {call : Call}
    {phase : Phase}
    (hother : ∀ file' handle' rest', phase ≠ .writing file' number handle' rest' ∨ call.pid ≠ pid)
    (h : PhaseHolds decodeAll build Serves dir unique call phase) :
    PhaseHolds decodeAll build Serves (dir.append handle bytes) unique call phase := by
  have hkeep : ∀ {name handle'}, name ≠ tmpName file pid number →
      dir.entry name = some handle' →
        (dir.append handle bytes).content handle' = dir.content handle' := by
    intro name handle' hname hentry
    refine Directory.content_append_of_ne ?_
    intro heq
    exact hname (hdir.injective _ _ handle (heq ▸ hentry) hfile)
  cases phase with
  | decompressed | copied | returned | failed => exact h
  | writing file' number' handle' rest =>
    obtain ⟨hnumber, hentry, hwants⟩ := h
    have hname : tmpName file' call.pid number' ≠ tmpName file pid number :=
      tmpName_ne_of_other (hother file' handle' rest)
    exact ⟨hnumber, hentry, (hkeep hname hentry).symm ▸ hwants⟩
  | renamed file' | missed file' =>
    obtain ⟨⟨image, hwants⟩, handle', hentry, hserves⟩ := h
    exact ⟨⟨image, hwants⟩, handle', hentry,
      (hkeep hwants.ne_tmpName hentry).symm ▸ hserves⟩
  | opened handle' =>
    obtain ⟨hlt, hnames, hserves⟩ := h
    refine ⟨hlt, hnames, ?_⟩
    rw [Directory.content_append_of_ne]
    · exact hserves
    · intro h'
      subst h'
      have hplain := hnames _ hfile
      rw [endsWith_tmpName] at hplain
      contradiction

/-- Another call renames its file over a store file: whoever still has to open
the store file must be allowed to serve what it is now. -/
theorem PhaseHolds.rename {file : String} {pid number handle : ℕ} {call : Call} {phase : Phase}
    (hren : Directory.Renamed dir dir' (tmpName file pid number) file)
    (hfile : dir.entry (tmpName file pid number) = some handle)
    (hplain : endsWith file ".tmp" = false)
    (hother : ∀ file' handle' rest', phase ≠ .writing file' number handle' rest' ∨ call.pid ≠ pid)
    (hserve : phase = .renamed file ∨ phase = .missed file →
      Serves call.pid call.apiVersion (dir.content handle))
    (h : PhaseHolds decodeAll build Serves dir unique call phase) :
    PhaseHolds decodeAll build Serves dir' unique call phase := by
  have hwaiting : ∀ file', (phase = .renamed file' ∨ phase = .missed file') →
      ((∃ image, Wants decodeAll build call.pid call.apiVersion file' image) ∧
        ∃ handle, dir.entry file' = some handle ∧
          Serves call.pid call.apiVersion (dir.content handle)) →
      (∃ image, Wants decodeAll build call.pid call.apiVersion file' image) ∧
        ∃ handle, dir'.entry file' = some handle ∧
          Serves call.pid call.apiVersion (dir'.content handle) := by
    intro file' hphase hbefore
    obtain ⟨⟨image, hwants⟩, handle', hentry, hserves⟩ := hbefore
    refine ⟨⟨image, hwants⟩, ?_⟩
    rw [hren.content]
    by_cases hsame : file' = file
    · subst hsame
      exact ⟨handle, hren.moved.trans hfile, hserve hphase⟩
    · exact ⟨handle', (hren.other file' hwants.ne_tmpName hsame).trans hentry, hserves⟩
  cases phase with
  | decompressed | copied | returned | failed => exact h
  | writing file' number' handle' rest =>
    obtain ⟨hnumber, hentry, hwants⟩ := h
    have hname : tmpName file' call.pid number' ≠ tmpName file pid number :=
      tmpName_ne_of_other (hother file' handle' rest)
    have hstore : tmpName file' call.pid number' ≠ file := by
      intro heq
      rw [← heq, endsWith_tmpName] at hplain
      contradiction
    refine ⟨hnumber, (hren.other _ hname hstore).trans hentry, ?_⟩
    rw [hren.content]
    exact hwants
  | renamed file' => exact hwaiting file' (Or.inl rfl) h
  | missed file' => exact hwaiting file' (Or.inr rfl) h
  | opened handle' =>
    obtain ⟨hlt, hnames, hserves⟩ := h
    refine ⟨hren.next.symm ▸ hlt, ?_, ?_⟩
    · intro name hentry
      rcases hren.entry_cases hentry with ⟨rfl, -⟩ | ⟨-, -, hbefore⟩
      · exact hplain
      · exact hnames name hbefore
    · rw [hren.content]
      exact hserves

theorem Invariant.initial (hdir : dir.WellFormed) :
    Invariant decodeAll build Serves (initial dir) :=
  ⟨hdir, nofun, nofun, nofun⟩

/-- One call moves to a new phase: it is enough to look at the new phase, at
what the rest of the calls know, and at the number of a file it writes to. -/
theorem Invariant.withCall {s : State} (h : Invariant decodeAll build Serves s) (c : ℕ)
    {call : Call} {cache : ℕ → Entries String Bytes} (hdir : dir.WellFormed)
    (hothers : ∀ c' call', c' ≠ c → s.calls c' = some call' →
      PhaseHolds decodeAll build Serves dir unique call' call'.phase)
    (hphase : PhaseHolds decodeAll build Serves dir unique call call.phase)
    (hnumber : ∀ file number handle rest, call.phase = .writing file number handle rest →
      ∀ c' call', c' ≠ c → s.calls c' = some call' →
        ∀ file' handle' rest', call'.phase ≠ .writing file' number handle' rest' ∨
          call'.pid ≠ call.pid)
    (hcached : ∀ pid apiVersion image, (cache pid).lookup apiVersion = some image →
      Serves pid apiVersion image) :
    Invariant decodeAll build Serves ⟨dir, unique, cache, update s.calls c (some call)⟩ := by
  have hcases : ∀ c' call', update s.calls c (some call) c' = some call' →
      c' = c ∧ call' = call ∨ c' ≠ c ∧ s.calls c' = some call' := by
    intro c' call' hc'
    by_cases hsame : c' = c
    · rw [hsame, update_self] at hc'
      exact Or.inl ⟨hsame, (Option.some.inj hc').symm⟩
    · rw [update_of_ne hsame] at hc'
      exact Or.inr ⟨hsame, hc'⟩
  refine ⟨hdir, ?_, ?_, hcached⟩
  · intro c' call' hc'
    rcases hcases c' call' hc' with ⟨-, rfl⟩ | ⟨hne, hold⟩
    · exact hphase
    · exact hothers c' call' hne hold
  · intro c₁ c₂ call₁ call₂ file₁ file₂ number handle₁ handle₂ rest₁ rest₂ h₁ h₂ hpid hw₁ hw₂
    rcases hcases c₁ call₁ h₁ with ⟨rfl, rfl⟩ | ⟨hne₁, hold₁⟩
    · rcases hcases c₂ call₂ h₂ with ⟨rfl, rfl⟩ | ⟨hne₂, hold₂⟩
      · rfl
      · rcases hnumber _ _ _ _ hw₁ c₂ call₂ hne₂ hold₂ file₂ handle₂ rest₂ with hphase | hpid'
        · exact absurd hw₂ hphase
        · exact absurd hpid.symm hpid'
    · rcases hcases c₂ call₂ h₂ with ⟨rfl, rfl⟩ | ⟨-, hold₂⟩
      · rcases hnumber _ _ _ _ hw₂ c₁ call₁ hne₁ hold₁ file₁ handle₁ rest₁ with hphase | hpid'
        · exact absurd hw₁ hphase
        · exact absurd hpid hpid'
      · exact h.numbers c₁ c₂ call₁ call₂ _ _ _ _ _ _ _ hold₁ hold₂ hpid hw₁ hw₂

/-- A call that moves on without a file of its own. -/
theorem Invariant.setPhase {s : State} (h : Invariant decodeAll build Serves s) (c : ℕ)
    {call : Call} {phase : Phase} {cache : ℕ → Entries String Bytes}
    (hphase : PhaseHolds decodeAll build Serves s.dir s.unique call phase)
    (hnumber : ∀ file number handle rest, phase ≠ .writing file number handle rest)
    (hcached : ∀ pid apiVersion image, (cache pid).lookup apiVersion = some image →
      Serves pid apiVersion image) :
    Invariant decodeAll build Serves
      ({ s with cache := cache }.setPhase c call phase) := by
  refine h.withCall c h.wellFormed (fun c' call' _ hc' => h.phase c' call' hc') hphase ?_ hcached
  intro file number handle rest hwriting
  exact absurd hwriting (hnumber file number handle rest)

/-- A renamed image may be served by every call that has yet to open the store
file. -/
def RenameServes (decodeAll : Bytes → Except String Bytes) (build : ℕ → Build)
    (Serves : ℕ → String → Bytes → Prop) (s : State) (e : Event) : Prop :=
  ∀ c call file number handle image, e = .rename c → s.calls c = some call →
    call.phase = .writing file number handle [] →
      Wants decodeAll build call.pid call.apiVersion file image →
        ∀ c' call', s.calls c' = some call' →
          (call'.phase = .renamed file ∨ call'.phase = .missed file) →
            Serves call'.pid call'.apiVersion image

variable (hown : ∀ pid apiVersion file image,
  Wants decodeAll build pid apiVersion file image → Serves pid apiVersion image)

/-- The numbers of the files that a process writes to are all different. -/
theorem Invariant.other_writing {s : State} (h : Invariant decodeAll build Serves s)
    {c : ℕ} {call : Call} {file : String} {number handle : ℕ} {rest : Bytes}
    (hcall : s.calls c = some call) (hphase : call.phase = .writing file number handle rest)
    {c' : ℕ} {call' : Call} (hne : c' ≠ c) (hcall' : s.calls c' = some call') (file' : String)
    (handle' : ℕ) (rest' : Bytes) :
    call'.phase ≠ .writing file' number handle' rest' ∨ call'.pid ≠ call.pid := by
  by_contra hboth
  rw [not_or, not_not, not_not] at hboth
  exact hne (h.numbers c' c call' call _ _ _ _ _ _ _ hcall' hcall hboth.2 hboth.1 hphase)

theorem Invariant.create {s : State} (h : Invariant decodeAll build Serves s) {c : ℕ} {call : Call}
    {file : String} {image : Bytes} (hcall : s.calls c = some call)
    (hphase : call.phase = .decompressed file image) :
    let created := s.dir.create (tmpName file call.pid (s.unique call.pid))
    Invariant decodeAll build Serves
      ({ s with
        dir := created.1
        unique := Function.update s.unique call.pid (s.unique call.pid + 1) }.setPhase c call
          (.writing file (s.unique call.pid) created.2 image)) := by
  intro created
  have hwants : Wants decodeAll build call.pid call.apiVersion file image := by
    have hknown := h.phase c call hcall
    rw [hphase] at hknown
    exact hknown
  refine h.withCall c h.wellFormed.create ?_ ?_ ?_ h.cached
  · intro c' call' _ hcall'
    exact (h.phase c' call' hcall').create h.wellFormed file call.pid
  · refine ⟨?_, Directory.entry_create_self, ?_⟩
    · show s.unique call.pid <
        Function.update s.unique call.pid (s.unique call.pid + 1) call.pid
      rw [update_self]
      exact Nat.lt_succ_self _
    · rw [Directory.content_create_self]
      exact hwants
  · -- A number that was just taken is larger than every number in use.
    intro file' number handle rest hwriting c' call' _ hcall' file'' handle' rest'
    obtain ⟨-, rfl, -⟩ := Phase.writing.inj hwriting
    by_contra hboth
    rw [not_or, not_not, not_not] at hboth
    have hknown := h.phase c' call' hcall'
    rw [hboth.1] at hknown
    have hlt : s.unique call.pid < s.unique call'.pid := hknown.1
    have hpid : call'.pid = call.pid := hboth.2
    rw [hpid] at hlt
    omega

theorem Invariant.write {s : State} (h : Invariant decodeAll build Serves s) {c : ℕ} {call : Call}
    {file : String} {number handle : ℕ} {rest : Bytes} (hcall : s.calls c = some call)
    (hphase : call.phase = .writing file number handle rest) (count : ℕ) :
    Invariant decodeAll build Serves
      ({ s with dir := s.dir.append handle (rest.take count) }.setPhase c call
        (.writing file number handle (rest.drop count))) := by
  have hknown := h.phase c call hcall
  rw [hphase] at hknown
  obtain ⟨hnumber, hentry, hwants⟩ := hknown
  refine h.withCall c h.wellFormed.append ?_ ?_ ?_ h.cached
  · intro c' call' hne hcall'
    exact (h.phase c' call' hcall').append h.wellFormed hentry _
      (h.other_writing hcall hphase hne hcall')
  · refine ⟨hnumber, hentry, ?_⟩
    rw [Directory.content_append_self, List.append_assoc, List.take_append_drop]
    exact hwants
  · intro file' number' handle' rest' hwriting c' call' hne hcall'
    obtain ⟨-, rfl, -⟩ := Phase.writing.inj hwriting
    exact h.other_writing hcall hphase hne hcall'

include hown in
theorem Invariant.rename {s : State} (h : Invariant decodeAll build Serves s) {c : ℕ} {call : Call}
    {file : String} {number handle : ℕ} (hcall : s.calls c = some call)
    (hphase : call.phase = .writing file number handle [])
    (hserves : RenameServes decodeAll build Serves s (.rename c))
    (hdir : s.dir.rename (tmpName file call.pid number) file = some dir) :
    Invariant decodeAll build Serves ({ s with dir := dir }.setPhase c call (.renamed file)) := by
  have hknown := h.phase c call hcall
  rw [hphase] at hknown
  obtain ⟨hnumber, hentry, hwants⟩ := hknown
  rw [List.append_nil] at hwants
  have hren := Directory.renamed_of_rename hwants.ne_tmpName.symm hdir
  refine h.withCall c (h.wellFormed.rename hren) ?_ ?_ nofun h.cached
  · intro c' call' hne hcall'
    refine (h.phase c' call' hcall').rename hren hentry hwants.plain
      (h.other_writing hcall hphase hne hcall') ?_
    intro hwaiting
    exact hserves c call file number handle _ rfl hcall hphase hwants c' call' hcall' hwaiting
  · refine ⟨⟨_, hwants⟩, handle, hren.moved.trans hentry, ?_⟩
    rw [hren.content]
    exact hown _ _ _ _ hwants

theorem Invariant.store {s : State} (h : Invariant decodeAll build Serves s) {c : ℕ} {call : Call}
    {image : Bytes} (hcall : s.calls c = some call) (hphase : call.phase = .copied image) :
    let cached := orInsert (s.cache call.pid) call.apiVersion image
    Invariant decodeAll build Serves
      ({ s with cache := Function.update s.cache call.pid cached.1 }.setPhase c call
        (.returned cached.2)) := by
  intro cached
  have hserves : Serves call.pid call.apiVersion image := by
    have hknown := h.phase c call hcall
    rw [hphase] at hknown
    exact hknown
  have hstored : Serves call.pid call.apiVersion cached.2 ∧
      ∀ apiVersion image', cached.1.lookup apiVersion = some image' →
        Serves call.pid apiVersion image' := by
    show Serves _ _ (orInsert _ _ _).2 ∧ ∀ apiVersion image', (orInsert _ _ _).1.lookup _ = _ → _
    unfold orInsert
    split
    · rename_i existing hexisting
      exact ⟨h.cached _ _ _ hexisting, fun apiVersion image' => h.cached _ _ _⟩
    · refine ⟨hserves, ?_⟩
      intro apiVersion image' hlookup
      rw [lookup_insert] at hlookup
      split at hlookup
      · rename_i hsame
        rw [hsame, ← Option.some.inj hlookup]
        exact hserves
      · exact h.cached _ _ _ hlookup
  refine h.setPhase c hstored.1 nofun ?_
  intro pid apiVersion image' hlookup
  by_cases hpid : pid = call.pid
  · subst hpid
    rw [update_self] at hlookup
    exact hstored.2 apiVersion image' hlookup
  · rw [update_of_ne hpid] at hlookup
    exact h.cached _ _ _ hlookup

theorem startPhase_holds (pid : ℕ) (apiVersion : String) (call : Call) (hpid : call.pid = pid)
    (hversion : call.apiVersion = apiVersion) :
    PhaseHolds decodeAll build Serves dir unique call
      (startPhase decodeAll build pid apiVersion) := by
  subst hpid hversion
  unfold startPhase
  split
  · rename_i hresolve
    exact hresolve
  · exact trivial

theorem Invariant.startCall {s : State} (h : Invariant decodeAll build Serves s) (c pid : ℕ)
    (apiVersion : String) :
    Invariant decodeAll build Serves
      { s with
        calls :=
          update s.calls c (some ⟨pid, apiVersion, startPhase decodeAll build pid apiVersion⟩)
      } := by
  refine h.withCall c h.wellFormed (fun c' call' _ hcall' => h.phase c' call' hcall') ?_ ?_ h.cached
  · exact startPhase_holds pid apiVersion _ rfl rfl
  · intro file number handle rest hwriting
    simp only [startPhase] at hwriting
    split at hwriting <;> contradiction

theorem Invariant.openStore {s : State} (h : Invariant decodeAll build Serves s) {c : ℕ}
    {call : Call} {file : String} {handle : ℕ} (hcall : s.calls c = some call)
    (hphase : call.phase = .missed file) (hentry : s.dir.entry file = some handle) :
    Invariant decodeAll build Serves (s.setPhase c call (.opened handle)) := by
  have hknown := h.phase c call hcall
  rw [hphase] at hknown
  obtain ⟨⟨image, hwants⟩, handle', hentry', hmay⟩ := hknown
  obtain rfl : handle' = handle := Option.some.inj (hentry'.symm.trans hentry)
  refine h.setPhase c ⟨h.wellFormed.lt_next _ _ hentry, ?_, hmay⟩ nofun h.cached
  intro name hname
  rw [h.wellFormed.injective name file _ hname hentry]
  exact hwants.plain

include hown in
/-- A step of a call keeps the invariant, by the phase that the call is in. -/
theorem Invariant.stepCall {s t : State} {e : Event} (h : Invariant decodeAll build Serves s)
    (hserves : RenameServes decodeAll build Serves s e) {call : Call}
    (hcall : s.calls e.caller = some call) (hstep : StorePath.stepCall s e.caller call e = some t) :
    Invariant decodeAll build Serves t := by
  have hknown := h.phase _ call hcall
  cases e with
  | call => contradiction
  | create c =>
    simp only [StorePath.stepCall] at hstep
    split at hstep
    · rename_i file image hphase
      obtain rfl := Option.some.inj hstep
      exact h.create hcall hphase
    · contradiction
  | write c count =>
    simp only [StorePath.stepCall] at hstep
    split at hstep
    · rename_i file number handle rest hphase
      obtain rfl := Option.some.inj hstep
      exact h.write hcall hphase count
    · contradiction
  | rename c =>
    simp only [StorePath.stepCall] at hstep
    split at hstep
    · rename_i file number handle hphase
      obtain ⟨dir, hdir, rfl⟩ := Option.map_eq_some_iff.mp hstep
      exact h.rename hown hcall hphase hserves hdir
    · contradiction
  | lookup c =>
    simp only [StorePath.stepCall] at hstep
    split at hstep
    · rename_i file hphase
      split at hstep
      · rename_i image hcached
        obtain rfl := Option.some.inj hstep
        exact h.setPhase c (h.cached _ _ _ hcached) nofun h.cached
      · obtain rfl := Option.some.inj hstep
        rw [hphase] at hknown
        exact h.setPhase c hknown nofun h.cached
    · contradiction
  | openStore c =>
    simp only [StorePath.stepCall] at hstep
    split at hstep
    · rename_i file hphase
      obtain ⟨handle, hentry, rfl⟩ := Option.map_eq_some_iff.mp hstep
      exact h.openStore hcall hphase hentry
    · contradiction
  | backup c =>
    simp only [StorePath.stepCall] at hstep
    split at hstep
    · rename_i handle hphase
      obtain rfl := Option.some.inj hstep
      rw [hphase] at hknown
      exact h.setPhase c hknown.2.2 nofun h.cached
    · contradiction
  | store c =>
    simp only [StorePath.stepCall] at hstep
    split at hstep
    · rename_i image hphase
      obtain rfl := Option.some.inj hstep
      exact h.store hcall hphase
    · contradiction
  | fail c message =>
    simp only [StorePath.stepCall] at hstep
    split at hstep
    · contradiction
    · contradiction
    · obtain rfl := Option.some.inj hstep
      exact h.setPhase c trivial nofun h.cached

include hown in
/-- Every step keeps the invariant, a rename if what it puts in place may be
served. -/
theorem Invariant.step {s t : State} {e : Event} (h : Invariant decodeAll build Serves s)
    (hserves : RenameServes decodeAll build Serves s e)
    (hstep : step decodeAll build s e = some t) : Invariant decodeAll build Serves t := by
  unfold StorePath.step at hstep
  cases hcall : s.calls e.caller with
  | none =>
    rw [hcall] at hstep
    cases e with
    | call c pid apiVersion =>
      obtain rfl := Option.some.inj hstep
      exact h.startCall c pid apiVersion
    | create | write | rename | lookup | openStore | backup | store | fail => contradiction
  | some call =>
    rw [hcall] at hstep
    exact h.stepCall hown hserves hcall hstep

end Invariant

end SqlServerMcp.StorePath
