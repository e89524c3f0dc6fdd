import SqlServerMcp.AssocMap

/-!
A shared cache of values that are built once for each key. A call looks its key
up; on a miss it builds a value outside the lock and then stores it, unless
another call has stored one first. The calls interleave at these two points.
Whatever the order, a call is handed the value that the first one to store its
key has built.
-/
namespace SqlServerMcp.KeyedCache

open AssocMap

variable {C K V : Type*} [DecidableEq K]

/-- The value under a key after storing one there, which keeps an existing one. -/
def orInsert (cache : Entries K V) (k : K) (v : V) : Entries K V × V :=
  match cache.lookup k with
  | some existing => (cache, existing)
  | none => (insert cache k v, v)

inductive Event (C : Type*) where
  | lookup (call : C)
  | store (call : C)
  | buildFailed (call : C)

/-- The cache, the calls that are building, and the values handed to calls. -/
structure State (C K V : Type*) where
  cache : Entries K V
  building : List C
  handed : List (C × V)

def initial : State C K V := ⟨[], [], []⟩

section Run

variable (key : C → K) (build : C → V)

def step [DecidableEq C] (s : State C K V) : Event C → State C K V
  | .lookup c =>
    match s.cache.lookup (key c) with
    | some v => { s with handed := (c, v) :: s.handed }
    | none => { s with building := c :: s.building }
  | .store c =>
    if c ∈ s.building then
      { cache := (orInsert s.cache (key c) (build c)).1
        building := s.building.erase c
        handed := (c, (orInsert s.cache (key c) (build c)).2) :: s.handed }
    else s
  | .buildFailed c => { s with building := s.building.erase c }

def run [DecidableEq C] (s : State C K V) (events : List (Event C)) : State C K V :=
  events.foldl (step key build) s

/-- Every value handed out is the one under its key, and every value in the
cache was built by a call that was handed it. -/
structure Invariant (s : State C K V) : Prop where
  served : ∀ e ∈ s.handed, s.cache.lookup (key e.1) = some e.2
  built : ∀ k v, s.cache.lookup k = some v → ∃ c, (c, v) ∈ s.handed ∧ key c = k ∧ build c = v

theorem initial_invariant : Invariant key build (initial : State C K V) := by
  constructor
  · intro e he
    contradiction
  · intro k v h
    contradiction

end Run

theorem orInsert_hit {cache : Entries K V} {k : K} {w : V} (h : cache.lookup k = some w)
    (v : V) : orInsert cache k v = (cache, w) := by
  simp only [orInsert, h]

theorem orInsert_miss {cache : Entries K V} {k : K} (h : cache.lookup k = none) (v : V) :
    orInsert cache k v = (insert cache k v, v) := by
  simp only [orInsert, h]

variable {key : C → K} {build : C → V}

/-- Handing out the value under a key keeps the invariant. -/
theorem Invariant.hand {s : State C K V} (h : Invariant key build s) (c : C) (v : V)
    (hv : s.cache.lookup (key c) = some v) (building : List C) :
    Invariant key build ⟨s.cache, building, (c, v) :: s.handed⟩ := by
  constructor
  · intro e he
    rcases List.mem_cons.mp he with rfl | hold
    · exact hv
    · exact h.served e hold
  · intro k w hw
    obtain ⟨c', hmem, hkey, hbuild⟩ := h.built k w hw
    exact ⟨c', List.mem_cons_of_mem _ hmem, hkey, hbuild⟩

/-- Storing a call's own value under a free key keeps the invariant. -/
theorem Invariant.store {s : State C K V} (h : Invariant key build s) (c : C)
    (hfree : s.cache.lookup (key c) = none) (building : List C) :
    Invariant key build
      ⟨insert s.cache (key c) (build c), building, (c, build c) :: s.handed⟩ := by
  constructor
  · intro e he
    rcases List.mem_cons.mp he with rfl | hold
    · exact lookup_insert_self _ _ _
    · have hserved := h.served e hold
      have hne : key e.1 ≠ key c := by
        intro heq
        rw [heq, hfree] at hserved
        contradiction
      rw [lookup_insert_of_ne _ _ hne]
      exact hserved
  · intro k w hw
    rw [lookup_insert] at hw
    by_cases hk : k = key c
    · rw [if_pos hk] at hw
      exact ⟨c, by simp [Option.some.inj hw], hk.symm, Option.some.inj hw⟩
    · rw [if_neg hk] at hw
      obtain ⟨c', hmem, hkey, hbuild⟩ := h.built k w hw
      exact ⟨c', List.mem_cons_of_mem _ hmem, hkey, hbuild⟩

theorem Invariant.step [DecidableEq C] {s : State C K V} (h : Invariant key build s)
    (event : Event C) : Invariant key build (step key build s event) := by
  cases event with
  | lookup c =>
    cases hlookup : s.cache.lookup (key c) with
    | some v =>
      simp only [KeyedCache.step, hlookup]
      exact h.hand c v hlookup s.building
    | none =>
      simp only [KeyedCache.step, hlookup]
      exact ⟨h.served, h.built⟩
  | store c =>
    by_cases hmem : c ∈ s.building
    · cases hlookup : s.cache.lookup (key c) with
      | some v =>
        simp only [KeyedCache.step, hmem, if_true, orInsert_hit hlookup]
        exact h.hand c v hlookup _
      | none =>
        simp only [KeyedCache.step, hmem, if_true, orInsert_miss hlookup]
        exact h.store c hlookup _
    · simp only [KeyedCache.step, hmem, if_false]
      exact h
  | buildFailed c => exact ⟨h.served, h.built⟩

/-- The invariant holds after every interleaving of calls. -/
theorem run_invariant [DecidableEq C] (key : C → K) (build : C → V) (events : List (Event C)) :
    Invariant key build (run key build initial events) := by
  have hrun : ∀ (s : State C K V), Invariant key build s →
      Invariant key build (run key build s events) := by
    induction events with
    | nil =>
      intro s h
      exact h
    | cons event rest ih =>
      intro s h
      exact ih (KeyedCache.step key build s event) (h.step event)
  exact hrun initial (initial_invariant key build)

/-- Every call is handed a value that looks like its own exactly when calls
with one key build values that look alike. -/
theorem Invariant.own_view_iff {W : Type*} {s : State C K V} (h : Invariant key build s)
    (view : V → W) :
    (∀ e ∈ s.handed, view e.2 = view (build e.1)) ↔
      ∀ e ∈ s.handed, ∀ e' ∈ s.handed, key e.1 = key e'.1 →
        view (build e.1) = view (build e'.1) := by
  constructor
  · intro hown e he e' he' hkey
    have hserved := h.served e he
    rw [hkey, h.served e' he'] at hserved
    rw [← hown e he, ← hown e' he', Option.some.inj hserved]
  · intro halike e he
    obtain ⟨c, hmem, hkey, hbuild⟩ := h.built _ _ (h.served e he)
    rw [halike e he (c, e.2) hmem hkey.symm]
    exact congrArg view hbuild.symm

/-- Whatever call asks, the cache holds under its key what the call would build. -/
def Transparent (key : C → K) (build : C → V) (cache : Entries K V) : Prop :=
  ∀ c v, cache.lookup (key c) = some v → v = build c

theorem transparent_nil : Transparent key build [] := by
  intro c v h
  contradiction

/-- A cache stays so when a call stores what every call of its key would build. -/
theorem Transparent.insert {cache : Entries K V} (h : Transparent key build cache) {c : C}
    (hkey : ∀ c', key c' = key c → build c' = build c) :
    Transparent key build (insert cache (key c) (build c)) := by
  intro c' v hv
  rw [lookup_insert] at hv
  by_cases hsame : key c' = key c
  · rw [if_pos hsame] at hv
    rw [hkey c' hsame]
    exact (Option.some.inj hv).symm
  · rw [if_neg hsame] at hv
    exact h c' v hv

theorem Transparent.orInsert {cache : Entries K V} (h : Transparent key build cache) {c : C}
    (hkey : ∀ c', key c' = key c → build c' = build c) :
    (orInsert cache (key c) (build c)).2 = build c ∧
      Transparent key build (orInsert cache (key c) (build c)).1 := by
  cases hlookup : cache.lookup (key c) with
  | some v =>
    rw [orInsert_hit hlookup]
    exact ⟨h c v hlookup, h⟩
  | none =>
    rw [orInsert_miss hlookup]
    exact ⟨rfl, h.insert hkey⟩

end SqlServerMcp.KeyedCache
