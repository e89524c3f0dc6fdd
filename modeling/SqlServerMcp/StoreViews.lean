import SqlServerMcp.DataStore
import SqlServerMcp.StoreSharing

/-!
The views of a store that calls are given. The calls of one process are given one
image of a version's store, whatever other processes rename over its file, so an
operation that one of them finds by a search is found by its id in all others.
Calls of different processes are given one image in every order of steps exactly
when their builds have one image for each store file.
-/
namespace SqlServerMcp.StoreViews

open AssocMap Function Runs SharedFiles StorePath StoreSharing
open DataStore PopulateEmbeddings
open KeyedCache (orInsert orInsert_hit orInsert_miss)

section Process

variable {decodeAll : Bytes → Except String Bytes} {build : ℕ → Build}
  {dir : Directory String UInt8} {events : List Event} {s t : State} {e : Event}

/-- A step leaves the caches alone, and what it then hands out is in the cache of
the call's process; or it stores an image, unless one is there by now. -/
theorem step_cache (h : step decodeAll build s e = some t) :
    (t.cache = s.cache ∧ ∀ call image, t.calls e.caller = some call →
      call.phase = .returned image →
        (s.cache call.pid).lookup call.apiVersion = some image) ∨
    ∃ (call : Call) (image : Bytes), t.cache = update s.cache call.pid
        (orInsert (s.cache call.pid) call.apiVersion image).1 ∧
      t.calls e.caller = some { call with
        phase := .returned (orInsert (s.cache call.pid) call.apiVersion image).2 } := by
  have hquiet : ∀ {calls : ℕ → Option Call} {call : Call} {phase : Phase},
      calls e.caller = some { call with phase := phase } →
      (∀ image, phase ≠ .returned image) →
      ∀ call image, calls e.caller = some call → call.phase = .returned image →
        (s.cache call.pid).lookup call.apiVersion = some image := by
    intro calls call phase hcalls hphase call' image hcall' hreturned
    obtain rfl := Option.some.inj (hcalls.symm.trans hcall')
    exact absurd hreturned (hphase image)
  unfold step at h
  cases hcall : s.calls e.caller with
  | none =>
    rw [hcall] at h
    cases e with
    | call c pid apiVersion =>
      obtain rfl := Option.some.inj h
      refine .inl ⟨rfl, fun call image hcall' hreturned => ?_⟩
      obtain rfl := Option.some.inj ((update_self c _ _).symm.trans hcall')
      dsimp only at hreturned
      unfold startPhase at hreturned
      split at hreturned <;> contradiction
    | create | write | rename | lookup | openStore | backup | store | fail => contradiction
  | some call =>
    rw [hcall] at h
    cases e with
    | call => contradiction
    | create c | write c | openStore c | backup c | fail c | rename c =>
      simp only [stepCall] at h
      split at h <;> first
        | contradiction
        | (obtain rfl := Option.some.inj h
           exact .inl ⟨rfl, hquiet (update_self c _ _) (by simp)⟩)
        | (obtain ⟨_, -, rfl⟩ := Option.map_eq_some_iff.mp h
           exact .inl ⟨rfl, hquiet (update_self c _ _) (by simp)⟩)
    | lookup c =>
      simp only [stepCall] at h
      split at h
      · split at h
        · rename_i image hcached
          obtain rfl := Option.some.inj h
          refine .inl ⟨rfl, fun call' image' hcall' hreturned => ?_⟩
          obtain rfl := Option.some.inj ((setPhase_calls_self s c call _).symm.trans hcall')
          obtain rfl := Phase.returned.inj hreturned
          exact hcached
        · obtain rfl := Option.some.inj h
          exact .inl ⟨rfl, hquiet (update_self c _ _) (by simp)⟩
      · contradiction
    | store c =>
      simp only [stepCall] at h
      split at h
      · rename_i image hphase
        obtain rfl := Option.some.inj h
        exact .inr ⟨call, image, rfl, setPhase_calls_self _ c call _⟩
      · contradiction

theorem lookup_orInsert (cache : Entries String Bytes) (apiVersion : String) (image : Bytes) :
    (orInsert cache apiVersion image).1.lookup apiVersion =
      some (orInsert cache apiVersion image).2 := by
  cases hlookup : cache.lookup apiVersion with
  | none => rw [orInsert_miss hlookup, lookup_insert_self]
  | some existing => rw [orInsert_hit hlookup, hlookup]

theorem lookup_orInsert_of_ne (cache : Entries String Bytes) {apiVersion other : String}
    (h : apiVersion ≠ other) (stored : Bytes) :
    (orInsert cache other stored).1.lookup apiVersion = cache.lookup apiVersion := by
  cases hother : cache.lookup other with
  | none => rw [orInsert_miss hother, lookup_insert_of_ne cache stored h]
  | some existing => rw [orInsert_hit hother]

/-- What is cached stays cached. -/
theorem cached_of_step (hstep : step decodeAll build s e = some t) {pid : ℕ}
    {apiVersion : String} {image : Bytes} (h : (s.cache pid).lookup apiVersion = some image) :
    (t.cache pid).lookup apiVersion = some image := by
  rcases step_cache hstep with ⟨hcache, -⟩ | ⟨call, stored, hcache, -⟩
  · rw [hcache, h]
  · rw [hcache]
    by_cases hpid : pid = call.pid
    · subst hpid
      rw [update_self]
      by_cases hversion : apiVersion = call.apiVersion
      · subst hversion
        rw [orInsert_hit h, h]
      · rw [lookup_orInsert_of_ne _ hversion, h]
    · rw [update_of_ne hpid, h]

/-- Every image that a call returned is the one in the cache of its process. -/
def ServesCached (s : State) : Prop :=
  ∀ c call image, s.calls c = some call → call.phase = .returned image →
    (s.cache call.pid).lookup call.apiVersion = some image

theorem ServesCached.step (h : ServesCached s) (hstep : step decodeAll build s e = some t) :
    ServesCached t := by
  intro c call image hcall hphase
  by_cases hc : c = e.caller
  · subst hc
    rcases step_cache hstep with ⟨hcache, hhanded⟩ | ⟨stored, copied, hcache, hcalls⟩
    · rw [hcache]
      exact hhanded call image hcall hphase
    · obtain rfl := Option.some.inj (hcalls.symm.trans hcall)
      obtain rfl := Phase.returned.inj hphase
      rw [hcache, update_self]
      exact lookup_orInsert _ _ _
  · rw [step_calls_of_ne hstep hc] at hcall
    exact cached_of_step hstep (h c call image hcall hphase)

theorem servesCached_of_reached (h : Reached (step decodeAll build) (initial dir) events t) :
    ServesCached t :=
  invariant_of_reached (fun _ _ _ hs hstep => hs.step hstep) (fun _ _ _ hcall => nomatch hcall) h

theorem same_image_of_reached (h : Reached (step decodeAll build) (initial dir) events t)
    {c c' pid : ℕ} {apiVersion : String} {image image' : Bytes}
    (hcall : t.calls c = some ⟨pid, apiVersion, .returned image⟩)
    (hcall' : t.calls c' = some ⟨pid, apiVersion, .returned image'⟩) : image = image' := by
  have hcached : (t.cache pid).lookup apiVersion = some image :=
    servesCached_of_reached h c _ image hcall rfl
  have hcached' : (t.cache pid).lookup apiVersion = some image' :=
    servesCached_of_reached h c' _ image' hcall' rfl
  exact Option.some.inj (hcached.symm.trans hcached')

/-- A call that has returned takes no further step. -/
theorem returned_of_step (hstep : step decodeAll build s e = some t) {c : ℕ} {call : Call}
    {image : Bytes} (hcall : s.calls c = some call) (hphase : call.phase = .returned image) :
    t.calls c = some call := by
  by_cases hc : c = e.caller
  · rw [step_of_call hcall hc.symm] at hstep
    exfalso
    cases e with
    | call => contradiction
    | create | write | rename | lookup | openStore | backup | store | fail =>
      simp only [stepCall, hphase] at hstep
      contradiction
  · rw [step_calls_of_ne hstep hc, hcall]

/-- Every cached image was returned to a call. -/
def CachedServed (s : State) : Prop :=
  ∀ pid apiVersion image, (s.cache pid).lookup apiVersion = some image →
    ∃ c, s.calls c = some ⟨pid, apiVersion, .returned image⟩

theorem CachedServed.step (h : CachedServed s) (hstep : step decodeAll build s e = some t) :
    CachedServed t := by
  intro pid apiVersion image hlookup
  by_cases hbefore : (s.cache pid).lookup apiVersion = some image
  · obtain ⟨c, hcall⟩ := h pid apiVersion image hbefore
    exact ⟨c, returned_of_step hstep hcall rfl⟩
  · rcases step_cache hstep with ⟨hcache, -⟩ | ⟨call, stored, hcache, hcalls⟩
    · rw [hcache] at hlookup
      contradiction
    · rw [hcache] at hlookup
      by_cases hpid : pid = call.pid
      · subst hpid
        rw [update_self] at hlookup
        by_cases hversion : apiVersion = call.apiVersion
        · subst hversion
          rw [lookup_orInsert] at hlookup
          obtain rfl := Option.some.inj hlookup
          exact ⟨_, hcalls⟩
        · rw [lookup_orInsert_of_ne _ hversion] at hlookup
          contradiction
      · rw [update_of_ne hpid] at hlookup
        contradiction

theorem cachedServed_of_reached (h : Reached (step decodeAll build) (initial dir) events t) :
    CachedServed t :=
  invariant_of_reached (fun _ _ _ hs hstep => hs.step hstep)
    (fun _ _ _ hlookup => nomatch hlookup) h

/-- The steps of one call leave the others alone. -/
theorem calls_of_run {c c' : ℕ} (hrun : run (step decodeAll build) s events = some t)
    (hcallers : ∀ e ∈ events, e.caller = c) (hne : c' ≠ c) : t.calls c' = s.calls c' := by
  induction events generalizing s with
  | nil =>
    obtain rfl := Option.some.inj hrun
    rfl
  | cons e rest ih =>
    obtain ⟨u, hstep, hrest⟩ := exists_step_of_run hrun
    have hcaller := hcallers e List.mem_cons_self
    rw [ih hrest fun e' he' => hcallers e' (List.mem_cons_of_mem e he')]
    exact step_calls_of_ne hstep (hcaller ▸ hne)

/-- Calls of all processes that look at one store file are given one image. -/
def ViewsAgree (decodeAll : Bytes → Except String Bytes) (build : ℕ → Build) (s : State) : Prop :=
  ∀ c c' pid pid' apiVersion apiVersion' file own own' image image',
    s.calls c = some ⟨pid, apiVersion, .returned image⟩ →
      s.calls c' = some ⟨pid', apiVersion', .returned image'⟩ →
        Wants decodeAll build pid apiVersion file own →
          Wants decodeAll build pid' apiVersion' file own' → image = image'

theorem wants_unique {pid : ℕ} {apiVersion file file' : String} {image image' : Bytes}
    (h : Wants decodeAll build pid apiVersion file image)
    (h' : Wants decodeAll build pid apiVersion file' image') : file = file' ∧ image = image' := by
  unfold Wants at h h'
  rw [h] at h'
  exact Prod.mk.inj (Except.ok.inj h')

theorem viewsAgree_of_agree (hagree : AgreeOnFiles decodeAll build) (hdir : dir.WellFormed)
    (h : Reached (step decodeAll build) (initial dir) events t) :
    ViewsAgree decodeAll build t := by
  intro c c' pid pid' apiVersion apiVersion' file own own' image image' hcall hcall' hwants hwants'
  have hown := servesOwn_of_agree hagree hdir h
  obtain ⟨served, hserved⟩ := hown c _ image hcall rfl
  obtain ⟨served', hserved'⟩ := hown c' _ image' hcall' rfl
  obtain ⟨rfl, rfl⟩ := wants_unique hwants hserved
  obtain ⟨rfl, rfl⟩ := wants_unique hwants' hserved'
  exact hagree _ _ _ _ _ _ _ hserved hserved'

/-- Two processes that extract and open a store file one after the other are each
given their own image. -/
theorem exists_run_serving_both {pid pid' : ℕ} {apiVersion apiVersion' file : String}
    {image image' : Bytes} (hwants : Wants decodeAll build pid apiVersion file image)
    (hwants' : Wants decodeAll build pid' apiVersion' file image')
    (hne : ¬(pid = pid' ∧ apiVersion = apiVersion')) :
    ∃ events t, run (step decodeAll build) (initial Directory.empty) events = some t ∧
      t.calls 0 = some ⟨pid, apiVersion, .returned image⟩ ∧
      t.calls 1 = some ⟨pid', apiVersion', .returned image'⟩ := by
  obtain ⟨s₁, hrun₁, hcall₁, hothers₁, hcache₁, handle, hentry, hcontent⟩ :=
    run_extraction (s := initial Directory.empty) (c := 0) rfl hwants
  obtain ⟨s₂, hrun₂, hcall₂⟩ := run_opening hcall₁ (by rw [hcache₁]; rfl) hentry
  rw [hcontent] at hcall₂
  have hnone : ∀ c, c ≠ 0 → s₂.calls c = none := by
    intro c hc
    rw [calls_of_run (c := 0) hrun₂ (by decide) hc]
    exact hothers₁ c hc
  have hrun := run_append hrun₁ hrun₂
  obtain ⟨s₃, hrun₃, hcall₃, hothers₃, hcache₃, handle', hentry', hcontent'⟩ :=
    run_extraction (s := s₂) (c := 1) (hnone 1 Nat.one_ne_zero) hwants'
  have hmiss : (s₃.cache pid').lookup apiVersion' = none := by
    rw [hcache₃, Option.eq_none_iff_forall_ne_some]
    intro cached hcached
    obtain ⟨c, hcall⟩ := cachedServed_of_reached (reached_last hrun) _ _ _ hcached
    by_cases hc : c = 0
    · subst hc
      obtain ⟨rfl, rfl, -⟩ := Call.mk.inj (Option.some.inj (hcall₂.symm.trans hcall))
      exact hne ⟨rfl, rfl⟩
    · rw [hnone c hc] at hcall
      contradiction
  obtain ⟨t, hrun₄, hcall₄⟩ := run_opening hcall₃ hmiss hentry'
  rw [hcontent'] at hcall₄
  refine ⟨_, t, run_append hrun (run_append hrun₃ hrun₄), ?_, hcall₄⟩
  rw [calls_of_run (c := 1) hrun₄ (by decide) Nat.zero_ne_one, hothers₃ 0 Nat.zero_ne_one, hcall₂]

theorem agree_of_viewsAgree (h : ∀ dir : Directory String UInt8, dir.WellFormed → ∀ events t,
      Reached (step decodeAll build) (initial dir) events t → ViewsAgree decodeAll build t) :
    AgreeOnFiles decodeAll build := by
  intro pid pid' apiVersion apiVersion' file image image' hwants hwants'
  by_cases hsame : pid = pid' ∧ apiVersion = apiVersion'
  · obtain ⟨rfl, rfl⟩ := hsame
    exact (wants_unique hwants hwants').2
  · obtain ⟨events, t, hrun, hcall, hcall'⟩ := exists_run_serving_both hwants hwants' hsame
    exact h Directory.empty Directory.wellFormed_empty events t (reached_last hrun) 0 1 _ _ _ _ _
      _ _ _ _ hcall hcall' hwants hwants'

variable (decodeAll build)

theorem viewsAgree_iff :
    (∀ dir : Directory String UInt8, dir.WellFormed → ∀ events t,
      Reached (step decodeAll build) (initial dir) events t → ViewsAgree decodeAll build t) ↔
        AgreeOnFiles decodeAll build :=
  ⟨agree_of_viewsAgree, fun hagree _ hdir _ _ h => viewsAgree_of_agree hagree hdir h⟩

-- How SQLite reads the tables of an image, and what the queries take from outside.
variable {D S : Type} [LinearOrder D] (read : Bytes → Option Tables)
  (fromStr : String → Option JsonValue.Json) (distance : List UInt8 → List UInt8 → D)
  (oneMinus : D → S)

/-- Whatever the processes that share the directory do, an operation that a search
of one call finds is found, with its summary, by every call of the same process
and version. -/
theorem search_then_get (dir : Directory String UInt8) (events : List Event) (t : State)
    (h : Reached (step decodeAll build) (initial dir) events t) (c c' pid : ℕ)
    (apiVersion : String) (image image' : Bytes)
    (hcall : t.calls c = some ⟨pid, apiVersion, .returned image⟩)
    (hcall' : t.calls c' = some ⟨pid, apiVersion, .returned image'⟩) (tables tables' : Tables)
    (hread : read image = some tables) (hread' : read image' = some tables')
    (query : List UInt8) (limit : ℕ) (chosen left : List (String × List UInt8))
    (found : List (StoredEndpoint × D))
    (hsearch : SearchEndpoints distance tables query limit chosen left found) :
    ∀ result ∈ found.map (searchResult oneMinus), ∃ endpoint,
      getOperation fromStr tables' result.operationId = .ok endpoint ∧
        endpoint.summary = result.summary := by
  obtain rfl := same_image_of_reached h hcall hcall'
  obtain rfl := Option.some.inj (hread.symm.trans hread')
  exact hsearch.getOperation_found fromStr oneMinus

end Process

/-- Another process renames its own image over the store file before the second
call of the process 0 looks at it. -/
def interleaved : List Event :=
  extraction 0 0 "2025" [1] ++ [.lookup 0, .openStore 0, .backup 0, .store 0] ++
    extraction 2 0 "2025" [1] ++ extraction 1 1 "2025" [2] ++ [.lookup 2]

theorem run_interleaved : ∃ t,
    run (step storedAsIs rebuilt) (initial Directory.empty) interleaved = some t ∧
      t.calls 0 = some ⟨0, "2025", .returned [1]⟩ ∧
      t.calls 2 = some ⟨0, "2025", .returned [1]⟩ :=
  ⟨_, rfl, rfl, rfl⟩

/-- The store of the process 0 has three operations, the rebuilt one has none. -/
def readSample (image : Bytes) : Option Tables :=
  if image = [1] then some (sampleTables lengthVectors) else some ⟨[], Map.empty, List.nodup_nil⟩

theorem search_then_get_interleaved :
    ∃ endpoint, getOperation (fun _ => some .null) (sampleTables lengthVectors) "sp_help" =
        .ok endpoint ∧
      endpoint.summary = some "a longer summary" := by
  obtain ⟨t, hrun, hcall, hcall'⟩ := run_interleaved
  exact search_then_get storedAsIs rebuilt readSample (fun _ => some .null) gap Nat.succ
    Directory.empty interleaved t (reached_last hrun) 0 2 0 "2025" [1] [1] hcall hcall' _ _ rfl rfl
    [32, 0, 0, 0] 2 _ _ _ populatedSearch ⟨"sp_help", some "a longer summary", 3⟩
    List.mem_cons_self

end SqlServerMcp.StoreViews
