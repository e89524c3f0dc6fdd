import SqlServerMcp.AssocMap
import SqlServerMcp.LastWrite
import SqlServerMcp.Runs

/-!
The cache of query results. An entry is dropped when a reader finds it expired, or
when a new key needs its place; which one has to go is not specified. Time is counted
in nanoseconds on a clock that does not run backwards and has a farthest instant.
-/
namespace SqlServerMcp.QueryCache

open AssocMap LastWrite Runs

structure Entry (V : Type*) where
  value : V
  expiresAt : ℕ
  deriving DecidableEq

structure Cache where
  maxSize : ℕ
  ttl : ℕ

abbrev Store (V : Type*) := Map String (Entry V)

/-- The store behind its lock. A call that panics with the lock in hand poisons it. -/
structure Shared (V : Type*) where
  store : Store V
  poisoned : Bool

inductive Panic where
  | poisoned
  | overflow
  deriving DecidableEq

variable {V : Type*}

namespace Shared

def new : Shared V := ⟨Map.empty, false⟩

def get (shared : Shared V) (key : String) (now : ℕ) : Except Panic (Option V) × Shared V :=
  if shared.poisoned then (.error .poisoned, shared)
  else
    match shared.store.get key with
    | none => (.ok none, shared)
    | some entry =>
      if entry.expiresAt < now then (.ok none, { shared with store := shared.store.erase key })
      else (.ok (some entry.value), shared)

def clear (shared : Shared V) : Except Panic Unit × Shared V :=
  if shared.poisoned then (.error .poisoned, shared)
  else (.ok (), { shared with store := Map.empty })

end Shared

namespace Cache

variable (cache : Cache)

/-- A new key takes the place of the first one listed where the store is full. -/
def makeRoom (store : Store V) (key : String) (first : Option String) : Store V :=
  if cache.maxSize ≤ store.size ∧ store.get key = none then first.elim store store.erase
  else store

def set (farthest : ℕ) (shared : Shared V) (key : String) (value : V) (now : ℕ)
    (first : Option String) : Except Panic Unit × Shared V :=
  if shared.poisoned then (.error .poisoned, shared)
  else
    let store := cache.makeRoom shared.store key first
    if now + cache.ttl ≤ farthest then
      (.ok (), ⟨store.insert key ⟨value, now + cache.ttl⟩, false⟩)
    else (.error .overflow, ⟨store, true⟩)

end Cache

/-- The key that the iteration over a store may give first. -/
def IsFirst (store : Store V) : Option String → Prop
  | none => store.size = 0
  | some key => store.get key ≠ none

instance (store : Store V) (first : Option String) : Decidable (IsFirst store first) := by
  cases first <;> unfold IsFirst <;> infer_instance

inductive Event (V : Type*) where
  | get (key : String) (now : ℕ)
  | set (key : String) (value : V) (now : ℕ) (first : Option String)
  | clear (now : ℕ)

/-- The time at which a call reads the clock, or returns where it reads none. -/
def Event.now : Event V → ℕ
  | .get _ now => now
  | .set _ _ now _ => now
  | .clear now => now

/-- What a call that returns does to the value of a key, with the time of it. -/
def Event.writes (key : String) : Event V → Option (Option (V × ℕ))
  | .get _ _ => none
  | .set k value now _ => if k = key then some (some (value, now)) else none
  | .clear _ => some none

/-- A cache in use: what is shared, the calls that have returned, and the last
reading of the clock. -/
structure System (V : Type*) where
  shared : Shared V
  calls : List (Event V)
  clock : ℕ

def System.new : System V := ⟨Shared.new, [], 0⟩

/-- A call is over: it has returned or panicked, and left the shared store. -/
def System.after {A : Type*} (s : System V) (e : Event V) (done : Except Panic A × Shared V) :
    System V :=
  ⟨done.2, if done.1.isOk then s.calls ++ [e] else s.calls, e.now⟩

section Step

variable (cache : Cache) (farthest : ℕ)

def step (s : System V) (e : Event V) : Option (System V) :=
  match e with
  | .get key now => if s.clock ≤ now then some (s.after e (s.shared.get key now)) else none
  | .set key value now first =>
    if s.clock ≤ now ∧ IsFirst s.shared.store first then
      some (s.after e (cache.set farthest s.shared key value now first))
    else none
  | .clear now => if s.clock ≤ now then some (s.after e s.shared.clear) else none

/-- The last value set for a key since the last clear, with the time of it. -/
def lastSet (key : String) (calls : List (Event V)) : Option (V × ℕ) :=
  held (Event.writes key) calls

/-- What the cache promises in one state: no more entries than its size, only
values that were set last and not too long ago, and no eviction where none is needed. -/
structure Lawful (s : System V) : Prop where
  bounded : s.shared.store.size ≤ cache.maxSize
  fresh : ∀ key now value, s.clock ≤ now → (s.shared.get key now).1 = .ok (some value) →
    ∃ time, lastSet key s.calls = some (value, time) ∧ now ≤ time + cache.ttl
  keeps : ∀ key value now first,
    s.shared.store.get key ≠ none ∨ s.shared.store.size < cache.maxSize →
      ∀ other, s.shared.store.get other ≠ none →
        (cache.set farthest s.shared key value now first).2.store.get other ≠ none

/-- A set of this kind stores an entry: its expiry is an instant of the clock. -/
def Stores (e : Event V) : Prop :=
  ∃ key value now first, e = .set key value now first ∧ now + cache.ttl ≤ farthest

end Step

section Spec

variable (cache : Cache) (farthest : ℕ)

theorem get_of_poisoned {shared : Shared V} (h : shared.poisoned = true) (key : String)
    (now : ℕ) : shared.get key now = (.error .poisoned, shared) := if_pos h

/-- A reader finds nothing, drops what has expired, or is handed an entry's value. -/
theorem get_cases {shared : Shared V} (h : shared.poisoned = false) (key : String) (now : ℕ) :
    shared.get key now = (.ok none, ⟨shared.store, false⟩) ∨
      shared.get key now = (.ok none, ⟨shared.store.erase key, false⟩) ∨
      ∃ entry, shared.store.get key = some entry ∧ now ≤ entry.expiresAt ∧
        shared.get key now = (.ok (some entry.value), ⟨shared.store, false⟩) := by
  obtain ⟨store, poisoned⟩ := shared
  have hfree : poisoned = false := h
  subst hfree
  unfold Shared.get
  cases hentry : store.get key with
  | none => exact Or.inl rfl
  | some entry =>
    right
    by_cases hexpired : entry.expiresAt < now
    · left
      simp [hexpired]
    · right
      exact ⟨entry, rfl, Nat.not_lt.mp hexpired, by simp [hexpired]⟩

theorem makeRoom_of_free {store : Store V} {key : String}
    (h : store.get key ≠ none ∨ store.size < cache.maxSize) (first : Option String) :
    cache.makeRoom store key first = store := by
  apply if_neg
  intro h'
  obtain ⟨hfull, hnone⟩ := h'
  rcases h with hsome | hroom
  · exact hsome hnone
  · omega

/-- Room is made by dropping one entry or none. -/
theorem get_makeRoom {store : Store V} {key other : String} {first : Option String}
    {entry : Entry V} (h : (cache.makeRoom store key first).get other = some entry) :
    store.get other = some entry := by
  unfold Cache.makeRoom at h
  split at h
  · cases first with
    | none => exact h
    | some dropped =>
      rw [Option.elim_some, Map.get_erase] at h
      split at h
      · contradiction
      · exact h
  · exact h

/-- A store within its bounds has room for the key afterwards. -/
theorem size_makeRoom_insert_le {store : Store V} (hpos : 0 < cache.maxSize)
    (hbounded : store.size ≤ cache.maxSize) {first : Option String} (hfirst : IsFirst store first)
    (key : String) (entry : Entry V) :
    ((cache.makeRoom store key first).insert key entry).size ≤ cache.maxSize := by
  by_cases hfree : store.get key ≠ none ∨ store.size < cache.maxSize
  · rw [makeRoom_of_free cache hfree]
    have hinsert := store.size_insert_le key entry
    by_cases hnone : store.get key = none
    · rw [if_pos hnone] at hinsert
      have hroom := hfree.resolve_left (not_not.mpr hnone)
      omega
    · rw [if_neg hnone] at hinsert
      omega
  · obtain ⟨hnone, hfull⟩ := not_or.mp hfree
    cases first with
    | none =>
      have hempty : store.size = 0 := hfirst
      omega
    | some dropped =>
      have hroom : cache.makeRoom store key (some dropped) = store.erase dropped :=
        if_pos ⟨Nat.not_lt.mp hfull, not_not.mp hnone⟩
      have hinsert := (store.erase dropped).size_insert_le key entry
      have herase := store.size_erase_lt (k := dropped) hfirst
      rw [hroom]
      split at hinsert <;> omega

theorem size_makeRoom_le (store : Store V) (key : String) (first : Option String) :
    (cache.makeRoom store key first).size ≤ store.size := by
  unfold Cache.makeRoom
  split
  · cases first with
    | none => exact Nat.le_refl _
    | some dropped => exact store.size_erase_le dropped
  · exact Nat.le_refl _

variable {cache farthest}

section Steps

variable {s t : System V}

theorem step_get {key : String} {now : ℕ} (h : step cache farthest s (.get key now) = some t) :
    s.clock ≤ now ∧ (s.shared.poisoned = true ∧ t = ⟨s.shared, s.calls, now⟩ ∨
      ∃ store, (store = s.shared.store ∨ store = s.shared.store.erase key) ∧
        t = ⟨⟨store, false⟩, s.calls ++ [.get key now], now⟩) := by
  simp only [step] at h
  split at h
  · rename_i hclock
    rw [← Option.some.inj h]
    refine ⟨hclock, ?_⟩
    cases hpoisoned : s.shared.poisoned with
    | true =>
      left
      rw [get_of_poisoned hpoisoned]
      exact ⟨rfl, rfl⟩
    | false =>
      right
      rcases get_cases hpoisoned key now with hget | hget | ⟨entry, -, -, hget⟩
      · rw [hget]
        exact ⟨_, Or.inl rfl, rfl⟩
      · rw [hget]
        exact ⟨_, Or.inr rfl, rfl⟩
      · rw [hget]
        exact ⟨_, Or.inl rfl, rfl⟩
  · contradiction

theorem step_clear {now : ℕ} (h : step cache farthest s (.clear now) = some t) :
    s.clock ≤ now ∧ (s.shared.poisoned = true ∧ t = ⟨s.shared, s.calls, now⟩ ∨
      t = ⟨Shared.new, s.calls ++ [.clear now], now⟩) := by
  simp only [step] at h
  split at h
  · rename_i hclock
    rw [← Option.some.inj h]
    refine ⟨hclock, ?_⟩
    unfold Shared.clear
    cases hpoisoned : s.shared.poisoned with
    | true => exact Or.inl ⟨rfl, rfl⟩
    | false =>
      right
      simp [System.after, Shared.new, Except.isOk, Except.toBool, Event.now]
  · contradiction

/-- A set stores its entry, or panics once it has made room. -/
theorem step_set {key : String} {value : V} {now : ℕ} {first : Option String}
    (h : step cache farthest s (.set key value now first) = some t) :
    s.clock ≤ now ∧ IsFirst s.shared.store first ∧
      (s.shared.poisoned = true ∧ t = ⟨s.shared, s.calls, now⟩ ∨
        s.shared.poisoned = false ∧ now + cache.ttl ≤ farthest ∧
          t = ⟨⟨(cache.makeRoom s.shared.store key first).insert key ⟨value, now + cache.ttl⟩,
            false⟩, s.calls ++ [.set key value now first], now⟩ ∨
        farthest < now + cache.ttl ∧
          t = ⟨⟨cache.makeRoom s.shared.store key first, true⟩, s.calls, now⟩) := by
  simp only [step] at h
  split at h
  · rename_i hpossible
    rw [← Option.some.inj h]
    refine ⟨hpossible.1, hpossible.2, ?_⟩
    unfold Cache.set
    cases hpoisoned : s.shared.poisoned with
    | true => exact Or.inl ⟨rfl, rfl⟩
    | false =>
      right
      by_cases hin : now + cache.ttl ≤ farthest
      · left
        refine ⟨rfl, hin, ?_⟩
        simp [System.after, hin, Except.isOk, Except.toBool, Event.now]
      · right
        refine ⟨Nat.not_le.mp hin, ?_⟩
        simp [System.after, hin, Except.isOk, Except.toBool, Event.now]
  · contradiction

end Steps

end Spec

section Histories

variable (key : String) (calls : List (Event V))

theorem lastSet_concat_get (k : String) (now : ℕ) :
    lastSet key (calls ++ [.get k now]) = lastSet key calls := by
  rw [lastSet, held, latest_concat]
  rfl

theorem lastSet_concat_set (value : V) (now : ℕ) (first : Option String) :
    lastSet key (calls ++ [.set key value now first]) = some (value, now) := by
  rw [lastSet, held, latest_concat, Event.writes, if_pos rfl]
  rfl

theorem lastSet_concat_set_of_ne {k : String} (h : k ≠ key) (value : V) (now : ℕ)
    (first : Option String) :
    lastSet key (calls ++ [.set k value now first]) = lastSet key calls := by
  rw [lastSet, held, latest_concat, Event.writes, if_neg h]
  rfl

end Histories

section Laws

variable (cache : Cache) (farthest : ℕ)

/-- The entries are the last values set, with their times; a panic comes from an
expiry that is no instant of the clock. -/
structure Kept (s : System V) : Prop where
  bounded : s.shared.store.size ≤ cache.maxSize
  dated : ∀ key entry, s.shared.store.get key = some entry →
    ∃ time, lastSet key s.calls = some (entry.value, time) ∧ entry.expiresAt = time + cache.ttl
  late : s.shared.poisoned = true → farthest < s.clock + cache.ttl

theorem kept_new : Kept cache farthest (System.new : System V) :=
  ⟨Nat.zero_le _, nofun, nofun⟩

variable {cache farthest}

theorem Kept.lawful {s : System V} (h : Kept cache farthest s) : Lawful cache farthest s := by
  refine ⟨h.bounded, ?_, ?_⟩
  · intro key now value _ hget
    cases hpoisoned : s.shared.poisoned with
    | true =>
      rw [get_of_poisoned hpoisoned] at hget
      contradiction
    | false =>
      rcases get_cases hpoisoned key now with heq | heq | ⟨entry, hentry, hnow, heq⟩
      · rw [heq] at hget
        exact absurd (Except.ok.inj hget).symm (Option.some_ne_none value)
      · rw [heq] at hget
        exact absurd (Except.ok.inj hget).symm (Option.some_ne_none value)
      · rw [heq] at hget
        obtain ⟨time, hlast, hexpires⟩ := h.dated key entry hentry
        rw [Option.some.inj (Except.ok.inj hget)] at hlast
        exact ⟨time, hlast, hexpires ▸ hnow⟩
  · intro key value now first hfree other hother
    unfold Cache.set
    split
    · exact hother
    · rw [makeRoom_of_free cache hfree]
      split
      · show (s.shared.store.insert key _).get other ≠ none
        rw [Map.get_insert]
        split
        · exact Option.some_ne_none _
        · exact hother
      · exact hother

/-- A call that finds the lock poisoned leaves everything as it is. -/
theorem Kept.poisoned {s : System V} (h : Kept cache farthest s)
    (hpoisoned : s.shared.poisoned = true) {now : ℕ} (hclock : s.clock ≤ now) :
    Kept cache farthest ⟨s.shared, s.calls, now⟩ := by
  refine ⟨h.bounded, h.dated, ?_⟩
  intro _
  have hlate := h.late hpoisoned
  show farthest < now + cache.ttl
  omega

theorem Kept.get {s t : System V} {key : String} {now : ℕ} (h : Kept cache farthest s)
    (hstep : step cache farthest s (.get key now) = some t) : Kept cache farthest t := by
  obtain ⟨hclock, ⟨hpoisoned, rfl⟩ | ⟨store, hstore, rfl⟩⟩ := step_get hstep
  · exact h.poisoned hpoisoned hclock
  · have hsub : ∀ other entry, store.get other = some entry →
        s.shared.store.get other = some entry := by
      intro other entry hentry
      rcases hstore with rfl | rfl
      · exact hentry
      · rw [Map.get_erase] at hentry
        split at hentry
        · contradiction
        · exact hentry
    refine ⟨?_, ?_, fun hpoisoned => absurd hpoisoned Bool.false_ne_true⟩
    · rcases hstore with rfl | rfl
      · exact h.bounded
      · exact Nat.le_trans (s.shared.store.size_erase_le key) h.bounded
    · intro other entry hentry
      rw [lastSet_concat_get]
      exact h.dated other entry (hsub other entry hentry)

theorem Kept.clear {s t : System V} {now : ℕ} (h : Kept cache farthest s)
    (hstep : step cache farthest s (.clear now) = some t) : Kept cache farthest t := by
  obtain ⟨hclock, ⟨hpoisoned, rfl⟩ | rfl⟩ := step_clear hstep
  · exact h.poisoned hpoisoned hclock
  · exact ⟨Nat.zero_le _, nofun, nofun⟩

theorem Kept.set {s t : System V} {key : String} {value : V} {now : ℕ} {first : Option String}
    (h : Kept cache farthest s)
    (hfits : 0 < cache.maxSize ∨ ¬ Stores cache farthest (.set key value now first))
    (hstep : step cache farthest s (.set key value now first) = some t) :
    Kept cache farthest t := by
  obtain ⟨hclock, hfirst, ⟨hpoisoned, rfl⟩ | ⟨-, hin, rfl⟩ | ⟨hout, rfl⟩⟩ := step_set hstep
  · exact h.poisoned hpoisoned hclock
  · have hpos := hfits.resolve_right (not_not.mpr ⟨key, value, now, first, rfl, hin⟩)
    refine ⟨size_makeRoom_insert_le cache hpos h.bounded hfirst key _, ?_, nofun⟩
    intro other entry hentry
    have hget : (if other = key then some ⟨value, now + cache.ttl⟩
        else (cache.makeRoom s.shared.store key first).get other) = some entry := by
      rw [← Map.get_insert]
      exact hentry
    by_cases hother : other = key
    · subst hother
      rw [if_pos rfl] at hget
      rw [← Option.some.inj hget]
      exact ⟨now, lastSet_concat_set _ _ _ _ _, rfl⟩
    · rw [if_neg hother] at hget
      rw [lastSet_concat_set_of_ne _ _ (Ne.symm hother)]
      exact h.dated other entry (get_makeRoom cache hget)
  · refine ⟨?_, ?_, fun _ => hout⟩
    · exact Nat.le_trans (size_makeRoom_le cache s.shared.store key first) h.bounded
    · intro other entry hentry
      exact h.dated other entry (get_makeRoom cache hentry)

theorem Kept.step {s t : System V} {e : Event V} (h : Kept cache farthest s)
    (hfits : 0 < cache.maxSize ∨ ¬ Stores cache farthest e)
    (hstep : step cache farthest s e = some t) : Kept cache farthest t := by
  cases e with
  | get key now => exact h.get hstep
  | set key value now first => exact h.set hfits hstep
  | clear now => exact h.clear hstep

/-- A cache for no entries keeps one all the same: there is no first key to drop. -/
theorem not_lawful_of_stores {s t : System V} {e : Event V} (h : Kept cache farthest s)
    (hfits : ¬ (0 < cache.maxSize ∨ ¬ Stores cache farthest e))
    (hstep : QueryCache.step cache farthest s e = some t) : ¬ Lawful cache farthest t := by
  obtain ⟨hzero, hstores⟩ := not_or.mp hfits
  obtain ⟨key, value, now, first, rfl, hin⟩ := not_not.mp hstores
  intro hlawful
  obtain ⟨hclock, -, ⟨hpoisoned, -⟩ | ⟨-, -, rfl⟩ | ⟨hout, -⟩⟩ := step_set hstep
  · have hlate := h.late hpoisoned
    omega
  · have hpos := (cache.makeRoom s.shared.store key first).size_insert_pos key
      ⟨value, now + cache.ttl⟩
    have hbounded := hlawful.bounded
    exact hzero (Nat.lt_of_lt_of_le hpos hbounded)
  · omega

/-- A run keeps the promises of the cache exactly when the cache is for at least one
entry or no set of the run stores one. -/
theorem lawful_iff (cache : Cache) (farthest : ℕ) (events : List (Event V)) (last : System V)
    (hrun : run (step cache farthest) System.new events = some last) :
    (∀ s, Reached (step cache farthest) System.new events s → Lawful cache farthest s) ↔
      0 < cache.maxSize ∨ ∀ e ∈ events, ¬ Stores cache farthest e := by
  have hexact : (∀ s, Reached (step cache farthest) System.new events s →
      Lawful cache farthest s) ↔
      Along (step cache farthest) (fun _ e => 0 < cache.maxSize ∨ ¬ Stores cache farthest e)
        System.new events := by
    apply forall_reached_iff_along (I := Kept cache farthest)
    · intro s e t h hfits hstep
      exact h.step hfits hstep
    · intro s h
      exact h.lawful
    · intro s e t h hfits hstep
      exact not_lawful_of_stores h hfits hstep
    · exact kept_new cache farthest
    · exact hrun
  rw [hexact, along_iff_forall_mem hrun]
  by_cases hpos : 0 < cache.maxSize
  · exact iff_of_true (fun _ _ => Or.inl hpos) (Or.inl hpos)
  · simp only [hpos, false_or]

/-- Two sets for one place, and a reader of the second. -/
def twoSets : List (Event String) :=
  [.set "a" "1" 0 none, .set "b" "2" 5 (some "a"), .get "b" 8]

/-- The state after those calls. -/
def twoSetsEnd : System String where
  shared := ⟨Map.empty.insert "b" ⟨"2", 15⟩, false⟩
  calls := twoSets
  clock := 8

theorem lawful_iff_twoSets :
    (∀ s, Reached (step ⟨1, 10⟩ 100) System.new twoSets s → Lawful ⟨1, 10⟩ 100 s) ↔
      0 < (⟨1, 10⟩ : Cache).maxSize ∨ ∀ e ∈ twoSets, ¬ Stores ⟨1, 10⟩ 100 e :=
  lawful_iff ⟨1, 10⟩ 100 twoSets twoSetsEnd rfl

/-- One set for no place. -/
def oneSet : List (Event String) := [.set "a" "1" 0 none]

def oneSetEnd : System String where
  shared := ⟨Map.empty.insert "a" ⟨"1", 10⟩, false⟩
  calls := oneSet
  clock := 0

theorem not_lawful_oneSet :
    ¬ ∀ (cache : Cache) (farthest : ℕ) (events : List (Event String)) (last : System String),
      run (step cache farthest) System.new events = some last →
        ∀ s, Reached (step cache farthest) System.new events s → Lawful cache farthest s := by
  intro h
  have hrun : run (step ⟨0, 10⟩ 100) System.new oneSet = some oneSetEnd := rfl
  have hlawful := h ⟨0, 10⟩ 100 oneSet oneSetEnd hrun oneSetEnd (reached_last hrun)
  have hsize : oneSetEnd.shared.store.size ≤ 0 := hlawful.bounded
  revert hsize
  decide

end Laws

end SqlServerMcp.QueryCache
