import SqlServerMcp.AssocMap

/-!
Lines cut into blocks. A line that carries a key starts a block; the lines up to
the next such line are its body. Lines before the first block are dropped, and
a later block replaces an earlier one of the same key.
-/
namespace SqlServerMcp.MarkedBlocks

open AssocMap

variable {L K V : Type*} [DecidableEq K]

/-- The blocks that are complete, and the one that is being read. -/
structure State (L K V : Type*) where
  done : Map K V
  current : Option (K × List L)

section Reading

variable (keyOf : L → Option K) (value : List L → V)

def flush (s : State L K V) : Map K V :=
  match s.current with
  | none => s.done
  | some (k, lines) => s.done.insert k (value lines)

def step (s : State L K V) (line : L) : State L K V :=
  match keyOf line with
  | some k => ⟨flush value s, some (k, [])⟩
  | none => { s with current := s.current.map fun c => (c.1, c.2 ++ [line]) }

def collect (lines : List L) : Map K V :=
  flush value (lines.foldl (step keyOf value) ⟨Map.empty, none⟩)

end Reading

variable {keyOf : L → Option K} {value : List L → V}

/-- Lines without a key go to the block that is being read. -/
theorem foldl_body {body : List L} (h : ∀ l ∈ body, keyOf l = none) (s : State L K V) :
    body.foldl (step keyOf value) s =
      { s with current := s.current.map fun c => (c.1, c.2 ++ body) } := by
  induction body generalizing s with
  | nil => cases s with | mk done current => cases current <;> simp
  | cons l body ih =>
    have hl := h l List.mem_cons_self
    rw [List.foldl_cons, ih fun m hm => h m (List.mem_cons_of_mem l hm), step, hl]
    cases s.current <;> simp

/-- Blocks whose first lines alone have keys are read one by one. -/
theorem flush_foldl_blocks {B : Type*} (marker : B → L) (key : B → K) (body : B → List L)
    {blocks : List B} (hmarker : ∀ b ∈ blocks, keyOf (marker b) = some (key b))
    (hbody : ∀ b ∈ blocks, ∀ l ∈ body b, keyOf l = none) (s : State L K V) :
    flush value ((blocks.flatMap fun b => marker b :: body b).foldl (step keyOf value) s) =
      blocks.foldl (fun m b => m.insert (key b) (value (body b))) (flush value s) := by
  induction blocks generalizing s with
  | nil => rfl
  | cons b blocks ih =>
    have hm := hmarker b List.mem_cons_self
    rw [List.flatMap_cons, List.foldl_append, List.foldl_cons,
      foldl_body (hbody b List.mem_cons_self),
      ih (fun c hc => hmarker c (List.mem_cons_of_mem b hc))
        fun c hc => hbody c (List.mem_cons_of_mem b hc)]
    simp only [step, hm, flush, Option.map_some, List.nil_append, List.foldl_cons]

/-- A file of blocks under distinct keys is read as their list. -/
theorem collect_blocks {B : Type*} (marker : B → L) (key : B → K) (body : B → List L)
    {preamble : List L} {blocks : List B} (hpreamble : ∀ l ∈ preamble, keyOf l = none)
    (hmarker : ∀ b ∈ blocks, keyOf (marker b) = some (key b))
    (hbody : ∀ b ∈ blocks, ∀ l ∈ body b, keyOf l = none) (hkeys : (blocks.map key).Nodup) :
    (collect keyOf value (preamble ++ blocks.flatMap fun b => marker b :: body b)).entries =
      blocks.map fun b => (key b, value (body b)) := by
  have hinsert : blocks.foldl (fun m b => m.insert (key b) (value (body b))) Map.empty =
      (blocks.map fun b => (key b, value (body b))).foldl (fun m e => m.insert e.1 e.2)
        (Map.empty : Map K V) := by
    rw [List.foldl_map]
  have hdistinct : DistinctKeys (blocks.map fun b => (key b, value (body b))) := by
    rw [DistinctKeys, keys, List.map_map]
    exact hkeys
  rw [collect, List.foldl_append, foldl_body hpreamble,
    flush_foldl_blocks marker key body hmarker hbody]
  show (blocks.foldl (fun m b => m.insert (key b) (value (body b))) Map.empty).entries = _
  rw [hinsert, Map.entries_foldl_insert_of_distinct _ hdistinct]

/-- A last line that changes the value of no body does not count. -/
theorem collect_concat {l : L} (hl : keyOf l = none)
    (hvalue : ∀ body, value (body ++ [l]) = value body) (lines : List L) :
    collect keyOf value (lines ++ [l]) = collect keyOf value lines := by
  rw [collect, collect, List.foldl_concat, step, hl]
  generalize lines.foldl (step keyOf value) ⟨Map.empty, none⟩ = s
  cases hcurrent : s.current with
  | none => simp only [flush, hcurrent, Option.map_none]
  | some c => simp only [flush, hcurrent, Option.map_some, hvalue]

theorem mem_keys_insert {m : Map K V} {k j : K} {v : V} (h : j ∈ keys (m.insert k v).entries) :
    j = k ∨ j ∈ keys m.entries :=
  (AssocMap.mem_keys_insert m.entries k j v).mp h

theorem length_insert_le (m : Map K V) (k : K) (v : V) :
    (m.insert k v).entries.length ≤ m.entries.length + 1 :=
  AssocMap.length_insert_le m.entries k v

/-- Every key that is read stands on a line. -/
theorem exists_line_of_mem_keys {lines : List L} {k : K}
    (h : k ∈ keys (collect keyOf value lines).entries) : ∃ l ∈ lines, keyOf l = some k := by
  have hfold : ∀ s : State L K V,
      k ∈ keys (flush value (lines.foldl (step keyOf value) s)).entries →
        k ∈ keys (flush value s).entries ∨ ∃ l ∈ lines, keyOf l = some k := by
    clear h
    induction lines with
    | nil =>
      intro s hk
      exact Or.inl hk
    | cons l lines ih =>
      intro s hk
      rcases ih (step keyOf value s l) hk with hstep | ⟨m, hm, hkey⟩
      · cases hl : keyOf l with
        | none =>
          left
          rw [step, hl] at hstep
          cases hcurrent : s.current with
          | none =>
            rw [flush, hcurrent] at hstep ⊢
            exact hstep
          | some c =>
            rw [flush, hcurrent] at hstep ⊢
            rcases mem_keys_insert hstep with heq | hold
            · exact (AssocMap.mem_keys_insert _ _ _ _).mpr (Or.inl heq)
            · exact (AssocMap.mem_keys_insert _ _ _ _).mpr (Or.inr hold)
        | some k' =>
          rw [step, hl] at hstep
          rcases mem_keys_insert hstep with heq | hold
          · exact Or.inr ⟨l, List.mem_cons_self, by rw [hl, heq]⟩
          · exact Or.inl hold
      · exact Or.inr ⟨m, List.mem_cons_of_mem l hm, hkey⟩
  rcases hfold ⟨Map.empty, none⟩ h with hempty | hline
  · contradiction
  · exact hline

/-- There are no more blocks than lines with a key. -/
theorem length_collect_le (lines : List L) :
    (collect keyOf value lines).entries.length ≤
      (lines.filter fun l => (keyOf l).isSome).length := by
  have hfold : ∀ s : State L K V,
      (flush value (lines.foldl (step keyOf value) s)).entries.length ≤
        (s.done.entries.length + if s.current.isSome then 1 else 0) +
          (lines.filter fun l => (keyOf l).isSome).length := by
    induction lines with
    | nil =>
      intro s
      cases hcurrent : s.current with
      | none => simp [flush, hcurrent]
      | some c =>
        simp only [List.foldl_nil, flush, hcurrent, Option.isSome_some, if_true]
        exact length_insert_le _ _ _
    | cons l lines ih =>
      intro s
      have hnext := ih (step keyOf value s l)
      rw [List.foldl_cons]
      cases hl : keyOf l with
      | none =>
        simp only [step, hl, Option.isSome_map] at hnext
        simp only [List.filter_cons, hl, Option.isSome_none, step]
        exact hnext
      | some k =>
        have hflush : (flush value s).entries.length ≤
            s.done.entries.length + if s.current.isSome then 1 else 0 := by
          cases hcurrent : s.current with
          | none => simp [flush, hcurrent]
          | some c =>
            simp only [flush, hcurrent, Option.isSome_some, if_true]
            exact length_insert_le _ _ _
        simp only [step, hl, Option.isSome_some, if_true] at hnext
        simp only [List.filter_cons, hl, Option.isSome_some, if_true, List.length_cons, step]
        omega
  have hempty := hfold ⟨Map.empty, none⟩
  simp only [Map.empty, List.length_nil, Option.isSome_none, Bool.false_eq_true, if_false,
    Nat.zero_add] at hempty
  exact hempty

theorem get_flush {s : State L K V} {k : K} {v : V} (hdone : s.done.get k = some v)
    (hcurrent : ∀ c, s.current = some c → c.1 ≠ k) : (flush value s).get k = some v := by
  unfold flush
  cases h : s.current with
  | none => exact hdone
  | some c =>
    rw [Map.get_insert_of_ne _ _ (Ne.symm (hcurrent c h))]
    exact hdone

/-- A complete block stays as it is while its key does not come again. -/
theorem get_flush_foldl_of_done {k : K} {v : V} {lines : List L}
    (h : ∀ l ∈ lines, keyOf l ≠ some k) {s : State L K V} (hdone : s.done.get k = some v)
    (hcurrent : ∀ c, s.current = some c → c.1 ≠ k) :
    (flush value (lines.foldl (step keyOf value) s)).get k = some v := by
  induction lines generalizing s with
  | nil => exact get_flush hdone hcurrent
  | cons l lines ih =>
    rw [List.foldl_cons]
    apply ih fun m hm => h m (List.mem_cons_of_mem l hm)
    · unfold step
      cases keyOf l with
      | none => exact hdone
      | some k' => exact get_flush hdone hcurrent
    · intro c hc
      cases hl : keyOf l with
      | none =>
        simp only [step, hl, Option.map_eq_some_iff] at hc
        obtain ⟨c', hc', rfl⟩ := hc
        exact hcurrent c' hc'
      | some k' =>
        simp only [step, hl, Option.some.injEq] at hc
        rw [← hc]
        intro hkey
        exact h l List.mem_cons_self (hl.trans (congrArg some hkey))

/-- The block that is being read ends at the next line with a key. -/
theorem get_flush_foldl_of_current {k : K} {lines : List L}
    (h : ∀ l ∈ lines, keyOf l ≠ some k) (done : Map K V) (read : List L) :
    (flush value (lines.foldl (step keyOf value) ⟨done, some (k, read)⟩)).get k =
      some (value (read ++ lines.takeWhile fun l => (keyOf l).isNone)) := by
  induction lines generalizing read with
  | nil => simp [flush]
  | cons l lines ih =>
    have hrest : ∀ m ∈ lines, keyOf m ≠ some k := fun m hm => h m (List.mem_cons_of_mem l hm)
    rw [List.foldl_cons]
    cases hl : keyOf l with
    | none =>
      simp only [step, hl, Option.map_some, List.takeWhile_cons, Option.isNone_none, if_true]
      rw [ih hrest, List.append_assoc, List.singleton_append]
    | some k' =>
      simp only [step, hl, flush, List.takeWhile_cons, Option.isNone_some, Bool.false_eq_true,
        if_false, List.append_nil]
      apply get_flush_foldl_of_done hrest
      · exact Map.get_insert_self _ _ _
      · intro c hc
        rw [← Option.some.inj hc]
        intro hkey
        exact h l List.mem_cons_self (hl.trans (congrArg some hkey))

/-- The last block of a key is the one that is read under it. -/
theorem get_collect {k : K} {marker : L} {body : List L} (hmarker : keyOf marker = some k)
    (h : ∀ l ∈ body, keyOf l ≠ some k) (before : List L) :
    (collect keyOf value (before ++ marker :: body)).get k =
      some (value (body.takeWhile fun l => (keyOf l).isNone)) := by
  rw [collect, List.foldl_append, List.foldl_cons, step, hmarker]
  exact get_flush_foldl_of_current h _ []

/-- Whatever is read under a key was made of some lines. -/
theorem exists_body_of_get {lines : List L} {k : K} {v : V}
    (h : (collect keyOf value lines).get k = some v) : ∃ body, v = value body := by
  have hflush : ∀ s : State L K V, (∀ k v, s.done.get k = some v → ∃ body, v = value body) →
      ∀ k v, (flush value s).get k = some v → ∃ body, v = value body := by
    intro s hs k v hget
    unfold flush at hget
    cases hcurrent : s.current with
    | none =>
      rw [hcurrent] at hget
      exact hs k v hget
    | some c =>
      rw [hcurrent] at hget
      simp only [Map.get_insert] at hget
      split at hget
      · exact ⟨c.2, (Option.some.inj hget).symm⟩
      · exact hs k v hget
  have hfold : ∀ s : State L K V, (∀ k v, s.done.get k = some v → ∃ body, v = value body) →
      ∀ k v, (flush value (lines.foldl (step keyOf value) s)).get k = some v →
        ∃ body, v = value body := by
    clear h
    induction lines with
    | nil => exact hflush
    | cons l lines ih =>
      intro s hs
      apply ih
      unfold step
      cases keyOf l with
      | none => exact hs
      | some k' => exact hflush s hs
  apply hfold ⟨Map.empty, none⟩ _ k v h
  intro k v hget
  contradiction

end SqlServerMcp.MarkedBlocks
