import Mathlib.Data.List.Basic
import Mathlib.Logic.Function.Basic

/-!
A directory that several writers share. A name is bound to a file, and a file
that was opened keeps its bytes whatever becomes of its name: a rename binds
the new name to the file in one step and leaves the one it was bound to alone.
No file has two names.
-/
namespace SqlServerMcp.SharedFiles

open Function

variable {N B : Type*} [DecidableEq N]

/-- The file of each name, the bytes of each file, and the first unused file. -/
structure Directory (N B : Type*) where
  entry : N → Option ℕ
  content : ℕ → List B
  next : ℕ

namespace Directory

/-- Every name is bound to a file of its own, which is in use. -/
structure WellFormed (dir : Directory N B) : Prop where
  injective : ∀ a b file, dir.entry a = some file → dir.entry b = some file → a = b
  lt_next : ∀ a file, dir.entry a = some file → file < dir.next

def empty : Directory N B := ⟨fun _ => none, fun _ => [], 0⟩

/-- Opens a name for writing: an existing file loses its bytes. -/
def create (dir : Directory N B) (name : N) : Directory N B × ℕ :=
  match dir.entry name with
  | some file => ({ dir with content := update dir.content file [] }, file)
  | none =>
    ({ entry := update dir.entry name (some dir.next)
       content := update dir.content dir.next []
       next := dir.next + 1 }, dir.next)

def append (dir : Directory N B) (file : ℕ) (bytes : List B) : Directory N B :=
  { dir with content := update dir.content file (dir.content file ++ bytes) }

/-- Moves the file of one name to another, over whatever file that had. -/
def rename (dir : Directory N B) (source target : N) : Option (Directory N B) :=
  (dir.entry source).map fun file =>
    { dir with entry := update (update dir.entry source none) target (some file) }

omit [DecidableEq N] in
theorem wellFormed_empty : (empty : Directory N B).WellFormed := ⟨nofun, nofun⟩

section Create

variable {dir : Directory N B} {name : N}

theorem entry_create_self : (dir.create name).1.entry name = some (dir.create name).2 := by
  unfold create
  split
  · rename_i file hentry
    exact hentry
  · exact update_self name _ _

theorem entry_create_of_ne {other : N} (h : other ≠ name) :
    (dir.create name).1.entry other = dir.entry other := by
  unfold create
  split
  · rfl
  · exact update_of_ne h _ _

theorem content_create_self : (dir.create name).1.content (dir.create name).2 = [] := by
  unfold create
  split <;> exact update_self _ _ _

theorem content_create_of_ne {file : ℕ} (h : file ≠ (dir.create name).2) :
    (dir.create name).1.content file = dir.content file := by
  unfold create at h ⊢
  split at h <;> exact update_of_ne h _ _

/-- The file that is written is the name's own, or a new one. -/
theorem create_file_cases :
    dir.entry name = some (dir.create name).2 ∨ (dir.create name).2 = dir.next := by
  unfold create
  split
  · rename_i file hentry
    exact Or.inl hentry
  · exact Or.inr rfl

theorem next_le_create : dir.next ≤ (dir.create name).1.next := by
  unfold create
  split
  · exact Nat.le_refl _
  · exact Nat.le_succ _

theorem create_file_lt (h : dir.WellFormed) : (dir.create name).2 < (dir.create name).1.next := by
  unfold create
  split
  · rename_i file hentry
    exact h.lt_next name file hentry
  · exact Nat.lt_succ_self _

/-- A file in use that the name is not bound to is another one. -/
theorem ne_create_file {file : ℕ} (hlt : file < dir.next) (h : dir.entry name ≠ some file) :
    file ≠ (dir.create name).2 := by
  intro heq
  rcases @create_file_cases N B _ dir name with hown | hnew
  · rw [← heq] at hown
    exact h hown
  · omega

theorem WellFormed.create (h : dir.WellFormed) : (dir.create name).1.WellFormed := by
  constructor
  · intro a b file ha hb
    have hother : ∀ c, c ≠ name → (dir.create name).1.entry c = some file →
        file ≠ (dir.create name).2 := by
      intro c hc hentry
      rw [entry_create_of_ne hc] at hentry
      refine ne_create_file (h.lt_next c file hentry) ?_
      intro hname
      exact hc (h.injective c name file hentry hname)
    by_cases ha' : a = name
    · by_cases hb' : b = name
      · rw [ha', hb']
      · rw [ha', entry_create_self] at ha
        exact absurd (Option.some.inj ha).symm (hother b hb' hb)
    · by_cases hb' : b = name
      · rw [hb', entry_create_self] at hb
        exact absurd (Option.some.inj hb).symm (hother a ha' ha)
      · rw [entry_create_of_ne ha'] at ha
        rw [entry_create_of_ne hb'] at hb
        exact h.injective a b file ha hb
  · intro a file ha
    by_cases ha' : a = name
    · rw [ha', entry_create_self] at ha
      rw [← Option.some.inj ha]
      exact create_file_lt h
    · rw [entry_create_of_ne ha'] at ha
      exact Nat.lt_of_lt_of_le (h.lt_next a file ha) next_le_create

end Create

section Append

variable {dir : Directory N B} {file : ℕ} {bytes : List B}

omit [DecidableEq N] in
@[simp] theorem entry_append : (dir.append file bytes).entry = dir.entry := rfl

omit [DecidableEq N] in
@[simp] theorem next_append : (dir.append file bytes).next = dir.next := rfl

omit [DecidableEq N] in
theorem content_append_self :
    (dir.append file bytes).content file = dir.content file ++ bytes :=
  update_self file _ _

omit [DecidableEq N] in
theorem content_append_of_ne {other : ℕ} (h : other ≠ file) :
    (dir.append file bytes).content other = dir.content other :=
  update_of_ne h _ _

omit [DecidableEq N] in
theorem WellFormed.append (h : dir.WellFormed) : (dir.append file bytes).WellFormed :=
  ⟨h.injective, h.lt_next⟩

end Append

section Rename

variable {dir dir' : Directory N B} {source target : N}

/-- What a rename does: the new name has the file, the old one has none, and
nothing else changes. -/
structure Renamed (dir dir' : Directory N B) (source target : N) : Prop where
  moved : dir'.entry target = dir.entry source
  isSome : ∃ file, dir.entry source = some file
  removed : dir'.entry source = none
  other : ∀ name, name ≠ source → name ≠ target → dir'.entry name = dir.entry name
  content : dir'.content = dir.content
  next : dir'.next = dir.next

theorem renamed_of_rename (hne : source ≠ target) (h : dir.rename source target = some dir') :
    Renamed dir dir' source target := by
  obtain ⟨file, hentry, rfl⟩ := Option.map_eq_some_iff.mp h
  refine ⟨?_, ⟨file, hentry⟩, ?_, ?_, rfl, rfl⟩
  · rw [hentry]
    exact update_self target _ _
  · exact (update_of_ne hne _ _).trans (update_self source _ _)
  · intro name hsource htarget
    exact (update_of_ne htarget _ _).trans (update_of_ne hsource _ _)

/-- A name of the directory after a rename had its file before, the new name
under the old one. -/
theorem Renamed.entry_cases (h : Renamed dir dir' source target) {name : N} {file : ℕ}
    (hentry : dir'.entry name = some file) :
    name = target ∧ dir.entry source = some file ∨
      name ≠ source ∧ name ≠ target ∧ dir.entry name = some file := by
  by_cases htarget : name = target
  · rw [htarget, h.moved] at hentry
    exact Or.inl ⟨htarget, hentry⟩
  · by_cases hsource : name = source
    · rw [hsource, h.removed] at hentry
      contradiction
    · rw [h.other name hsource htarget] at hentry
      exact Or.inr ⟨hsource, htarget, hentry⟩

theorem WellFormed.rename (h : dir.WellFormed) (hren : Renamed dir dir' source target) :
    dir'.WellFormed := by
  constructor
  · intro a b file ha hb
    rcases hren.entry_cases ha with ⟨ha', hfile⟩ | ⟨hsource, -, hfile⟩
    · rcases hren.entry_cases hb with ⟨hb', -⟩ | ⟨hsource', -, hfile'⟩
      · rw [ha', hb']
      · exact absurd (h.injective b source file hfile' hfile) hsource'
    · rcases hren.entry_cases hb with ⟨-, hfile'⟩ | ⟨-, -, hfile'⟩
      · exact absurd (h.injective a source file hfile hfile') hsource
      · exact h.injective a b file hfile hfile'
  · intro a file ha
    rw [hren.next]
    rcases hren.entry_cases ha with ⟨-, hfile⟩ | ⟨-, -, hfile⟩
    · exact h.lt_next source file hfile
    · exact h.lt_next a file hfile

end Rename

end Directory

end SqlServerMcp.SharedFiles
