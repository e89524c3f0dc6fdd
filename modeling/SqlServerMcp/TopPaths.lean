import SqlServerMcp.Document

/-!
Which operations of a ranked list get a path. The list is cut first and the paths
are taken after it, so a path that comes twice within the cut leaves its second
place empty, and no operation from beyond the cut moves up.
-/
namespace SqlServerMcp.TopPaths

open AssocMap Document Grouping Operations

def distinctPaths (ops : List Operation) : Finset String := (ops.map pathOf).toFinset

/-- Each path stands for the best operation of that path, and an operation whose
path is missing is worse than all of them. -/
structure StandsForBest (ranked : List Operation) (paths : Map String PostOperation) : Prop where
  best : ∀ path post, paths.get path = some post →
    ∃ op, (ranked.filter fun other => pathOf other = path).head? = some op ∧
      post = postOperation op
  ahead : ∀ before op after, ranked = before ++ op :: after → paths.get (pathOf op) = none →
    ∀ path post, paths.get path = some post →
      ∃ other ∈ before, pathOf other = path ∧ post = postOperation other

/-- The paths are the best so many of the list. -/
structure TopDistinct (n : ℕ) (ranked : List Operation) (paths : Map String PostOperation) :
    Prop extends StandsForBest ranked paths where
  count : paths.entries.length = min n (distinctPaths ranked).card

section Cut

variable (n : ℕ) (ranked : List Operation)

theorem paths_get_iff (kept : List Operation) (path : String) (post : PostOperation) :
    (emitAll kept).paths.get path = some post ↔
      ∃ op ∈ emitted kept, pathOf op = path ∧ post = postOperation op := by
  have hmem : (emitAll kept).paths.get path = some post ↔
      (path, post) ∈ (emitAll kept).paths.entries :=
    lookup_eq_some_iff_mem (emitAll kept).paths.distinct path post
  rw [hmem, (emitAll_eq kept).1, List.mem_map]
  constructor
  · intro h
    obtain ⟨op, hop, heq⟩ := h
    obtain ⟨hpath, hpost⟩ := Prod.mk.inj heq
    exact ⟨op, hop, hpath, hpost.symm⟩
  · intro h
    obtain ⟨op, hop, hpath, hpost⟩ := h
    exact ⟨op, hop, Prod.ext hpath hpost.symm⟩

/-- A path is missing where no operation within the cut has it. -/
theorem paths_get_eq_none_iff (kept : List Operation) (path : String) :
    (emitAll kept).paths.get path = none ↔ path ∉ kept.map pathOf := by
  have hkeys : keys (emitAll kept).paths.entries = (emitted kept).map pathOf := by
    rw [(emitAll_eq kept).1, keys, List.map_map]
    rfl
  have hnone : (emitAll kept).paths.get path = none ↔
      path ∉ keys (emitAll kept).paths.entries :=
    lookup_eq_none_iff _ _
  rw [hnone, hkeys]
  exact not_congr (mem_map_firsts pathOf kept path)

theorem standsForBest_cut : StandsForBest ranked (emitAll (ranked.take n)).paths := by
  constructor
  · intro path post hget
    obtain ⟨op, hop, rfl, hpost⟩ := (paths_get_iff (ranked.take n) path post).mp hget
    exact ⟨op, head_filter_of_firsts_take pathOf hop, hpost⟩
  · intro before op after hsplit hmissing path post hget
    obtain ⟨other, hother, hpath, hpost⟩ := (paths_get_iff (ranked.take n) path post).mp hget
    refine ⟨other, ?_, hpath, hpost⟩
    have hcut : n ≤ before.length := by
      by_contra hlt
      rw [paths_get_eq_none_iff] at hmissing
      apply hmissing
      apply List.mem_map_of_mem
      rw [hsplit, List.take_append, List.mem_append]
      obtain ⟨k, hk⟩ : ∃ k, n - before.length = k + 1 := ⟨n - before.length - 1, by omega⟩
      rw [hk, List.take_succ_cons]
      exact Or.inr List.mem_cons_self
    have hkept : other ∈ ranked.take n := (firsts_sublist pathOf (ranked.take n)).mem hother
    rw [hsplit, List.take_append_of_le_length hcut] at hkept
    exact List.mem_of_mem_take hkept

theorem length_paths_cut :
    (emitAll (ranked.take n)).paths.entries.length = (distinctPaths (ranked.take n)).card := by
  rw [(emitAll_eq _).1, List.length_map]
  exact length_firsts pathOf (ranked.take n)

/-- The document has the distinct paths of the operations within the cut, each for
its best operation and none from behind. They are as many as there could be when
no path comes twice within the cut or none is beyond it alone. -/
theorem paths_of_cut :
    StandsForBest ranked (emitAll (ranked.take n)).paths ∧
      (emitAll (ranked.take n)).paths.entries.length = (distinctPaths (ranked.take n)).card ∧
      (TopDistinct n ranked (emitAll (ranked.take n)).paths ↔
        ((ranked.take n).map pathOf).Nodup ∨
          ∀ op ∈ ranked, pathOf op ∈ (ranked.take n).map pathOf) := by
  refine ⟨standsForBest_cut n ranked, length_paths_cut n ranked, ?_⟩
  rw [← card_take_eq_min_iff pathOf ranked n]
  constructor
  · intro htop
    exact (length_paths_cut n ranked).symm.trans htop.count
  · intro hcard
    exact ⟨standsForBest_cut n ranked, (length_paths_cut n ranked).trans hcard⟩

end Cut

/-- A procedure and a view of one name, and a view that ranks after them. -/
def sharedName : List Operation :=
  [⟨"sys", "jobs", "SQL_STORED_PROCEDURE", ["master"], [], .noResultSet, false, false⟩,
    ⟨"sys", "jobs", "VIEW", ["msdb"], [], .noResultSet, false, false⟩,
    ⟨"sys", "steps", "VIEW", ["msdb"], [], .noResultSet, false, false⟩]

/-- Two of the three are kept, and they are one path. -/
theorem not_topDistinct_sharedName :
    ¬ TopDistinct 2 sharedName (emitAll (sharedName.take 2)).paths := by
  intro htop
  have hcount := (length_paths_cut 2 sharedName).symm.trans htop.count
  have hcut : (distinctPaths (sharedName.take 2)).card = 1 := by decide
  have hall : (distinctPaths sharedName).card = 2 := by decide
  omega

end SqlServerMcp.TopPaths
