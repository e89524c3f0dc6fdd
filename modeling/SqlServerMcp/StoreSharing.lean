import SqlServerMcp.StorePath

/-!
What the processes that share the temporary directory serve. No call serves a
part of a file. A call serves another build's image when that is renamed over
the store file after the call's own rename and before it opens the file, so only
builds with one image for each store file are safe in every order of steps.
-/
namespace SqlServerMcp.StoreSharing

open AssocMap Function Runs SharedFiles StorePath
open KeyedCache (orInsert)

section Run

variable (decodeAll : Bytes → Except String Bytes) (build : ℕ → Build)

/-- Every connection that a call returned serves the image of its own build. -/
def ServesOwn (s : State) : Prop :=
  ∀ c call image, s.calls c = some call → call.phase = .returned image →
    ∃ file, Wants decodeAll build call.pid call.apiVersion file image

/-- Every connection that a call returned serves a whole image that some build
has for the store file. -/
def ServesWhole (s : State) : Prop :=
  ∀ c call image, s.calls c = some call → call.phase = .returned image →
    ∃ file own pid apiVersion, Wants decodeAll build call.pid call.apiVersion file own ∧
      Wants decodeAll build pid apiVersion file image

/-- A rename comes between the rename and the opening of another call on the same
store file only if the two resolve to the same store. -/
def RenamesSame (s : State) (e : Event) : Prop :=
  ∀ c call file number handle, e = .rename c → s.calls c = some call →
    call.phase = .writing file number handle [] →
      ∀ c' call', s.calls c' = some call' →
        (call'.phase = .renamed file ∨ call'.phase = .missed file) →
          resolveStore decodeAll (build call'.pid) call'.apiVersion =
            resolveStore decodeAll (build call.pid) call.apiVersion

/-- The builds that share the directory have one image for each store file. -/
def AgreeOnFiles : Prop :=
  ∀ pid pid' apiVersion apiVersion' file image image',
    Wants decodeAll build pid apiVersion file image →
      Wants decodeAll build pid' apiVersion' file image' → image = image'

variable {decodeAll build} {dir : Directory String UInt8} {events : List Event} {s t : State}

/-- No call ever serves a part of a file, in whatever order the steps come. -/
theorem servesWhole_of_reached (hdir : dir.WellFormed)
    (h : Reached (step decodeAll build) (initial dir) events t) :
    ServesWhole decodeAll build t := by
  let Serves (pid : ℕ) (apiVersion : String) (image : Bytes) : Prop :=
    ∃ file own pid' apiVersion', Wants decodeAll build pid apiVersion file own ∧
      Wants decodeAll build pid' apiVersion' file image
  have hinv : Invariant decodeAll build Serves t := by
    refine invariant_of_reached ?_ (Invariant.initial hdir) h
    intro s e t hs hstep
    refine hs.step (fun pid apiVersion file image hwants => ⟨file, image, _, _, hwants, hwants⟩)
      ?_ hstep
    intro c call file number handle image _ _ _ hwants c' call' hcall' hwaiting
    have hknown := hs.phase c' call' hcall'
    obtain ⟨own, hown⟩ : ∃ own, Wants decodeAll build call'.pid call'.apiVersion file own := by
      rcases hwaiting with hphase | hphase <;> rw [hphase] at hknown <;> exact hknown.1
    exact ⟨file, own, _, _, hown, hwants⟩
  intro c call image hcall hphase
  have hknown := hinv.phase c call hcall
  rw [hphase] at hknown
  exact hknown

theorem servesOwn_of_invariant (h : Invariant decodeAll build
    (fun pid apiVersion image => ∃ file, Wants decodeAll build pid apiVersion file image) t) :
    ServesOwn decodeAll build t := by
  intro c call image hcall hphase
  have hknown := h.phase c call hcall
  rw [hphase] at hknown
  exact hknown

theorem servesOwn_of_along (hdir : dir.WellFormed)
    (halong : Along (step decodeAll build) (RenamesSame decodeAll build) (initial dir) events)
    (h : Reached (step decodeAll build) (initial dir) events t) : ServesOwn decodeAll build t := by
  apply servesOwn_of_invariant
  refine invariant_of_along ?_ (Invariant.initial hdir) halong h
  intro s e t hs hsame hstep
  refine hs.step (fun pid apiVersion file image hwants => ⟨file, hwants⟩) ?_ hstep
  intro c call file number handle image he hcall hphase hwants c' call' hcall' hwaiting
  refine ⟨file, ?_⟩
  unfold Wants
  rw [hsame c call file number handle he hcall hphase c' call' hcall' hwaiting]
  exact hwants

theorem servesOwn_of_agree (hagree : AgreeOnFiles decodeAll build) (hdir : dir.WellFormed)
    (h : Reached (step decodeAll build) (initial dir) events t) : ServesOwn decodeAll build t := by
  apply servesOwn_of_invariant
  refine invariant_of_reached ?_ (Invariant.initial hdir) h
  intro s e t hs hstep
  refine hs.step (fun pid apiVersion file image hwants => ⟨file, hwants⟩) ?_ hstep
  intro c call file number handle image _ _ _ hwants c' call' hcall' hwaiting
  have hknown := hs.phase c' call' hcall'
  obtain ⟨own, hown⟩ : ∃ own, Wants decodeAll build call'.pid call'.apiVersion file own := by
    rcases hwaiting with hphase | hphase <;> rw [hphase] at hknown <;> exact hknown.1
  exact ⟨file, hagree _ _ _ _ _ _ _ hown hwants ▸ hown⟩

theorem step_of_call {c : ℕ} {call : Call} (h : s.calls c = some call) {e : Event}
    (he : e.caller = c) : step decodeAll build s e = stepCall s c call e := by
  subst he
  unfold step
  rw [h]

theorem setPhase_calls_self (s : State) (c : ℕ) (call : Call) (phase : Phase) :
    (s.setPhase c call phase).calls c = some { call with phase := phase } :=
  update_self c _ _

theorem setPhase_calls_of_ne (s : State) {c c' : ℕ} (h : c' ≠ c) (call : Call) (phase : Phase) :
    (s.setPhase c call phase).calls c' = s.calls c' :=
  update_of_ne h _ _

/-- The steps of a call up to its rename. -/
def extraction (c pid : ℕ) (apiVersion : String) (image : Bytes) : List Event :=
  [.call c pid apiVersion, .create c, .write c image.length, .rename c]

/-- An extraction that nothing comes between puts its image under the store file. -/
theorem run_extraction {c pid : ℕ} {apiVersion file : String} {image : Bytes}
    (hnew : s.calls c = none) (hwants : Wants decodeAll build pid apiVersion file image) :
    ∃ t, run (step decodeAll build) s (extraction c pid apiVersion image) = some t ∧
      t.calls c = some ⟨pid, apiVersion, .renamed file⟩ ∧
      (∀ c', c' ≠ c → t.calls c' = s.calls c') ∧ t.cache = s.cache ∧
      ∃ handle, t.dir.entry file = some handle ∧ t.dir.content handle = image := by
  have hstart : startPhase decodeAll build pid apiVersion = .decompressed file image := by
    unfold startPhase
    rw [hwants]
  let number := s.unique pid
  let created := s.dir.create (tmpName file pid number)
  let written := created.1.append created.2 (image.take image.length)
  have hentry : written.entry (tmpName file pid number) = some created.2 :=
    Directory.entry_create_self
  have hcontent : written.content created.2 = image := by
    rw [Directory.content_append_self, Directory.content_create_self, List.nil_append,
      List.take_length]
  obtain ⟨dir, hrename⟩ : ∃ dir, written.rename (tmpName file pid number) file = some dir := by
    unfold Directory.rename
    rw [hentry]
    exact ⟨_, rfl⟩
  have hren := Directory.renamed_of_rename hwants.ne_tmpName.symm hrename
  let s₁ : State :=
    { s with calls := update s.calls c (some ⟨pid, apiVersion, .decompressed file image⟩) }
  let s₂ : State := { s₁ with
    dir := created.1
    unique := update s.unique pid (number + 1) }.setPhase c
      ⟨pid, apiVersion, .decompressed file image⟩ (.writing file number created.2 image)
  let s₃ : State := { s₂ with dir := written }.setPhase c
    ⟨pid, apiVersion, .writing file number created.2 image⟩ (.writing file number created.2 [])
  let s₄ : State := { s₃ with dir := dir }.setPhase c
    ⟨pid, apiVersion, .writing file number created.2 []⟩ (.renamed file)
  have h₁ : step decodeAll build s (.call c pid apiVersion) = some s₁ := by
    unfold step
    simp only [Event.caller, hnew, hstart]
    rfl
  have h₂ : step decodeAll build s₁ (.create c) = some s₂ := by
    rw [step_of_call (update_self c _ _) rfl]
    rfl
  have h₃ : step decodeAll build s₂ (.write c image.length) = some s₃ := by
    rw [step_of_call (setPhase_calls_self _ c _ _) rfl]
    simp only [stepCall, List.drop_length]
    rfl
  have h₄ : step decodeAll build s₃ (.rename c) = some s₄ := by
    rw [step_of_call (setPhase_calls_self _ c _ _) rfl]
    exact congrArg (Option.map _) hrename
  refine ⟨s₄, ?_, setPhase_calls_self _ c _ _, ?_, rfl, created.2, hren.moved.trans hentry, ?_⟩
  · unfold extraction
    rw [run_cons_of_step h₁, run_cons_of_step h₂, run_cons_of_step h₃, run_cons_of_step h₄]
    rfl
  · intro c' hc'
    rw [setPhase_calls_of_ne _ hc']
    exact (setPhase_calls_of_ne _ hc' _ _).trans ((setPhase_calls_of_ne _ hc' _ _).trans
      (update_of_ne hc' _ _))
  · exact (congrFun hren.content _).trans hcontent

/-- The rest of a call: the cache has nothing, and the store file is opened as it
is by now. -/
theorem run_opening {c pid handle : ℕ} {apiVersion file : String}
    (hcall : s.calls c = some ⟨pid, apiVersion, .renamed file⟩)
    (hcache : (s.cache pid).lookup apiVersion = none) (hentry : s.dir.entry file = some handle) :
    ∃ t, run (step decodeAll build) s [.lookup c, .openStore c, .backup c, .store c] = some t ∧
      t.calls c = some ⟨pid, apiVersion, .returned (s.dir.content handle)⟩ := by
  let s₁ : State := s.setPhase c ⟨pid, apiVersion, .renamed file⟩ (.missed file)
  let s₂ : State := s₁.setPhase c ⟨pid, apiVersion, .missed file⟩ (.opened handle)
  let s₃ : State := s₂.setPhase c ⟨pid, apiVersion, .opened handle⟩ (.copied (s.dir.content handle))
  let cached := orInsert (s.cache pid) apiVersion (s.dir.content handle)
  let s₄ : State := { s₃ with cache := update s.cache pid cached.1 }.setPhase c
    ⟨pid, apiVersion, .copied (s.dir.content handle)⟩ (.returned cached.2)
  have h₁ : step decodeAll build s (.lookup c) = some s₁ := by
    rw [step_of_call hcall rfl]
    simp only [stepCall, hcache]
    rfl
  have h₂ : step decodeAll build s₁ (.openStore c) = some s₂ := by
    rw [step_of_call (setPhase_calls_self _ c _ _) rfl]
    exact congrArg (Option.map _) hentry
  have h₃ : step decodeAll build s₂ (.backup c) = some s₃ := by
    rw [step_of_call (setPhase_calls_self _ c _ _) rfl]
    rfl
  have h₄ : step decodeAll build s₃ (.store c) = some s₄ := by
    rw [step_of_call (setPhase_calls_self _ c _ _) rfl]
    rfl
  refine ⟨s₄, ?_, ?_⟩
  · rw [run_cons_of_step h₁, run_cons_of_step h₂, run_cons_of_step h₃, run_cons_of_step h₄]
    rfl
  · have hcached : cached.2 = s.dir.content handle := by
      show (orInsert _ _ _).2 = _
      rw [orInsert, hcache]
    rw [← hcached]
    exact setPhase_calls_self _ c _ _

/-- A step of a call changes the phase of the call, and of no other. -/
theorem stepCall_calls {c : ℕ} {call : Call} {e : Event} (hstep : stepCall s c call e = some t) :
    ∃ phase, t.calls = update s.calls c (some { call with phase := phase }) := by
  cases e with
  | call => contradiction
  | create | write | openStore | backup | store | fail | rename =>
    simp only [stepCall] at hstep
    split at hstep <;> first
      | contradiction
      | (obtain rfl := Option.some.inj hstep
         exact ⟨_, rfl⟩)
      | (obtain ⟨_, -, rfl⟩ := Option.map_eq_some_iff.mp hstep
         exact ⟨_, rfl⟩)
  | lookup =>
    simp only [stepCall] at hstep
    split at hstep
    · split at hstep <;> (obtain rfl := Option.some.inj hstep; exact ⟨_, rfl⟩)
    · contradiction

/-- A step starts its call, or moves it to another phase. -/
theorem step_calls {e : Event} (hstep : step decodeAll build s e = some t) :
    (∃ c pid apiVersion phase, e = .call c pid apiVersion ∧
      t.calls = update s.calls c (some ⟨pid, apiVersion, phase⟩)) ∨
    ∃ call phase, s.calls e.caller = some call ∧
      t.calls = update s.calls e.caller (some { call with phase := phase }) := by
  unfold step at hstep
  cases hcall : s.calls e.caller with
  | none =>
    rw [hcall] at hstep
    cases e with
    | call c pid apiVersion =>
      obtain rfl := Option.some.inj hstep
      exact Or.inl ⟨c, pid, apiVersion, _, rfl, rfl⟩
    | create | write | rename | lookup | openStore | backup | store | fail => contradiction
  | some call =>
    rw [hcall] at hstep
    obtain ⟨phase, hphase⟩ := stepCall_calls hstep
    exact Or.inr ⟨call, phase, rfl, hphase⟩

theorem step_calls_of_ne {e : Event} {c : ℕ} (hstep : step decodeAll build s e = some t)
    (hc : c ≠ e.caller) : t.calls c = s.calls c := by
  rcases step_calls hstep with ⟨c', pid, apiVersion, phase, rfl, hcalls⟩ | ⟨call, phase, -, hcalls⟩
  · rw [hcalls]
    exact update_of_ne hc _ _
  · rw [hcalls, update_of_ne hc]

/-- A call keeps its process and version from its first step on. -/
theorem call_of_step {e : Event} (hstep : step decodeAll build s e = some t) {c : ℕ} {call : Call}
    (hcall : t.calls c = some call) :
    (∃ old, s.calls c = some old ∧ old.pid = call.pid ∧ old.apiVersion = call.apiVersion) ∨
      e = .call c call.pid call.apiVersion := by
  by_cases hc : c = e.caller
  · subst hc
    rcases step_calls hstep with ⟨c, pid, apiVersion, phase, rfl, hcalls⟩ |
      ⟨old, phase, hold, hcalls⟩
    · rw [hcalls] at hcall
      obtain rfl := Option.some.inj ((update_self c _ _).symm.trans hcall)
      exact Or.inr rfl
    · rw [hcalls, update_self] at hcall
      obtain rfl := Option.some.inj hcall
      exact Or.inl ⟨old, hold, rfl, rfl⟩
  · exact Or.inl ⟨call, (step_calls_of_ne hstep hc).symm.trans hcall, rfl, rfl⟩

/-- Calls that resolve to one store may come between each other in any order. -/
theorem along_of_same_store (stored : Except String (String × Bytes))
    (h : ∀ e ∈ events, ∀ c pid apiVersion, e = .call c pid apiVersion →
      resolveStore decodeAll (build pid) apiVersion = stored) :
    Along (step decodeAll build) (RenamesSame decodeAll build) (initial dir) events := by
  intro done e rest t hsplit hrun c call file number handle _ hcall _ c' call' hcall' _
  have hstored : ∀ c call, t.calls c = some call →
      resolveStore decodeAll (build call.pid) call.apiVersion = stored := by
    refine invariant_of_along
      (I := fun s => ∀ c call, s.calls c = some call →
        resolveStore decodeAll (build call.pid) call.apiVersion = stored)
      (C := fun _ e => ∀ c pid apiVersion, e = .call c pid apiVersion →
        resolveStore decodeAll (build pid) apiVersion = stored) ?_ nofun ?_ (reached_last hrun)
    · intro s e t hs he hstep c call hcall
      rcases call_of_step hstep hcall with ⟨old, hold, hpid, hversion⟩ | rfl
      · rw [← hpid, ← hversion]
        exact hs c old hold
      · exact he _ _ _ rfl
    · intro done' e' rest' _ hsplit' _
      refine h e' ?_
      rw [hsplit, hsplit']
      exact List.mem_append_left _ (List.mem_append_right _ List.mem_cons_self)
  rw [hstored c' call' hcall', hstored c call hcall]

/-- Two images for one store file: an order of steps in which a call serves the
image of the other. -/
theorem exists_run_serving_other {pid pid' : ℕ} {apiVersion apiVersion' file : String}
    {image image' : Bytes} (hwants : Wants decodeAll build pid apiVersion file image)
    (hwants' : Wants decodeAll build pid' apiVersion' file image') :
    ∃ events t, run (step decodeAll build) (initial Directory.empty) events = some t ∧
      t.calls 0 = some ⟨pid, apiVersion, .returned image'⟩ := by
  obtain ⟨s₁, hrun₁, hcall₁, hothers₁, hcache₁, -⟩ :=
    run_extraction (s := initial Directory.empty) (c := 0) rfl hwants
  obtain ⟨s₂, hrun₂, -, hothers₂, hcache₂, handle, hentry, hcontent⟩ :=
    run_extraction (s := s₁) (c := 1) (hothers₁ 1 Nat.one_ne_zero) hwants'
  have hcall₂ : s₂.calls 0 = some ⟨pid, apiVersion, .renamed file⟩ := by
    rw [hothers₂ 0 Nat.zero_ne_one]
    exact hcall₁
  have hnone : (s₂.cache pid).lookup apiVersion = none := by
    rw [hcache₂, hcache₁]
    rfl
  obtain ⟨t, hrun₃, hreturned⟩ := run_opening hcall₂ hnone hentry
  rw [hcontent] at hreturned
  exact ⟨_, t, run_append hrun₁ (run_append hrun₂ hrun₃), hreturned⟩

theorem agree_of_servesOwn (h : ∀ dir : Directory String UInt8, dir.WellFormed → ∀ events t,
      Reached (step decodeAll build) (initial dir) events t → ServesOwn decodeAll build t) :
    AgreeOnFiles decodeAll build := by
  intro pid pid' apiVersion apiVersion' file image image' hwants hwants'
  obtain ⟨events, t, hrun, hcall⟩ := exists_run_serving_other hwants hwants'
  obtain ⟨file', hown⟩ := h Directory.empty Directory.wellFormed_empty events t
    (reached_last hrun) 0 _ image' hcall rfl
  unfold Wants at hown hwants
  rw [hwants] at hown
  exact (Prod.mk.inj (Except.ok.inj hown)).2

variable (decodeAll build)

/-- Whatever the order of the steps, a connection serves a whole image of its
store file. It serves the image of its own build in every run in which nothing
else is renamed over a store file that a call has yet to open, and in all runs
exactly when the builds have one image for each store file. -/
theorem servesOwn_iff :
    (∀ dir : Directory String UInt8, dir.WellFormed → ∀ events t,
      Reached (step decodeAll build) (initial dir) events t → ServesWhole decodeAll build t) ∧
    (∀ dir : Directory String UInt8, dir.WellFormed → ∀ events,
      Along (step decodeAll build) (RenamesSame decodeAll build) (initial dir) events →
        ∀ t, Reached (step decodeAll build) (initial dir) events t →
          ServesOwn decodeAll build t) ∧
    ((∀ dir : Directory String UInt8, dir.WellFormed → ∀ events t,
      Reached (step decodeAll build) (initial dir) events t → ServesOwn decodeAll build t) ↔
        AgreeOnFiles decodeAll build) :=
  ⟨fun _ hdir _ _ h => servesWhole_of_reached hdir h,
    fun _ hdir _ halong _ h => servesOwn_of_along hdir halong h,
    agree_of_servesOwn, fun hagree _ hdir _ _ h => servesOwn_of_agree hagree hdir h⟩

end Run

/-- Stores that are not compressed. -/
def storedAsIs (bytes : Bytes) : Except String Bytes := .ok bytes

/-- The process 1 has a rebuilt store. -/
def rebuilt (pid : ℕ) : Build := .ofBytes [("2025", if pid = 1 then [2] else [1])]

/-- The process 2 renames its store file between the rename and the opening of
the process 0, which has the same build. -/
def overlapping : List Event :=
  extraction 0 0 "2025" [1] ++ extraction 1 2 "2025" [1] ++
    [.lookup 0, .lookup 1, .openStore 1, .openStore 0, .backup 0, .backup 1, .store 1, .store 0]

theorem servesOwn_overlapping :
    ∀ t, Reached (step storedAsIs rebuilt) (initial Directory.empty) overlapping t →
      ServesOwn storedAsIs rebuilt t := by
  refine (servesOwn_iff storedAsIs rebuilt).2.1 Directory.empty Directory.wellFormed_empty _ ?_
  refine along_of_same_store (.ok ("mcp_store.db", [1])) ?_
  simp only [overlapping, extraction, List.cons_append, List.nil_append, List.forall_mem_cons,
    Event.call.injEq, reduceCtorEq, false_implies, implies_true, true_and, and_imp]
  exact ⟨fun _ _ _ _ hpid hversion => hpid ▸ hversion ▸ rfl,
    fun _ _ _ _ hpid hversion => hpid ▸ hversion ▸ rfl, nofun⟩

/-- Two builds with different stores: one order of steps serves the process 0
the image of the process 1. -/
theorem not_servesOwn_rebuilt :
    ¬ ∀ (decodeAll : Bytes → Except String Bytes) (build : ℕ → Build)
        (dir : Directory String UInt8), dir.WellFormed → ∀ events t,
      Reached (step decodeAll build) (initial dir) events t → ServesOwn decodeAll build t := by
  intro h
  have hagree := agree_of_servesOwn (h storedAsIs rebuilt)
  have hsame := hagree 0 1 "2025" "2025" "mcp_store.db" [1] [2] rfl rfl
  contradiction

end SqlServerMcp.StoreSharing
