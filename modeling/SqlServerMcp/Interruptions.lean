import Mathlib.Data.List.Basic

/-!
Computations that change a state step by step and may be cut short after any step.
A computation passes when every state on its way has a property and it ends with a
result; the rules below compose this.
-/
namespace SqlServerMcp.Interruptions

universe u v w

/-- How a computation ends: its result, the state that it leaves, and all states on
its way, the first and the last of them included. -/
structure Ended (S : Type u) (E : Type v) (A : Type w) where
  result : Except E A
  final : S
  passed : List S

def Steps (S : Type u) (E : Type v) (A : Type w) := S → Ended S E A

namespace Steps

variable {S : Type u} {E : Type v} {A B : Type w}

protected def pure (a : A) : Steps S E A := fun s => ⟨.ok a, s, [s]⟩

def fail (e : E) : Steps S E A := fun s => ⟨.error e, s, [s]⟩

protected def bind (p : Steps S E A) (q : A → Steps S E B) : Steps S E B := fun s =>
  match (p s).result with
  | .error e => ⟨.error e, (p s).final, (p s).passed⟩
  | .ok a =>
    let rest := q a (p s).final
    ⟨rest.result, rest.final, (p s).passed ++ rest.passed⟩

instance : Monad (Steps S E) where
  pure := Steps.pure
  bind := Steps.bind

/-- Something is read that may not be there. -/
def look (f : S → Except E A) : Steps S E A := fun s => ⟨f s, s, [s]⟩

/-- One step. -/
def change (f : S → S) : Steps S E PUnit := fun s => ⟨.ok ⟨⟩, f s, [s, f s]⟩

/-- One step for each element, in order. -/
def changes {C : Type*} (f : C → S → S) : List C → Steps S E PUnit
  | [] => pure ⟨⟩
  | c :: rest => do
    change (f c)
    changes f rest

/-- Every state on the way has a property, and the computation ends with a result. -/
structure Passes (I : S → Prop) (p : Steps S E A) (s : S) (Q : A → S → Prop) : Prop where
  safe : ∀ t ∈ (p s).passed, I t
  ends : ∃ a, (p s).result = .ok a ∧ Q a (p s).final

variable {I : S → Prop} {s : S} {p : Steps S E A} {q : A → Steps S E B}

theorem bind_eq_of_ok {a : A} (h : (p s).result = .ok a) :
    (p >>= q) s = ⟨(q a (p s).final).result, (q a (p s).final).final,
      (p s).passed ++ (q a (p s).final).passed⟩ := by
  show Steps.bind p q s = _
  rw [Steps.bind, h]

theorem bind_eq_of_error {e : E} (h : (p s).result = .error e) :
    (p >>= q) s = ⟨.error e, (p s).final, (p s).passed⟩ := by
  show Steps.bind p q s = _
  rw [Steps.bind, h]

/-- A computation that has not failed at all has not failed in its first part. -/
theorem exists_of_bind_ok {b : B} (h : ((p >>= q) s).result = .ok b) :
    ∃ a, (p s).result = .ok a ∧ (q a (p s).final).result = .ok b := by
  cases hp : (p s).result with
  | error e =>
    rw [bind_eq_of_error hp] at h
    contradiction
  | ok a =>
    rw [bind_eq_of_ok hp] at h
    exact ⟨a, rfl, h⟩

theorem mem_passed_of_left {t : S} (h : t ∈ (p s).passed) : t ∈ ((p >>= q) s).passed := by
  cases hp : (p s).result with
  | error e =>
    rw [bind_eq_of_error hp]
    exact h
  | ok a =>
    rw [bind_eq_of_ok hp]
    exact List.mem_append_left _ h

namespace Passes

variable {Q R : A → S → Prop} {T : B → S → Prop}

theorem pure {a : A} (hs : I s) (hQ : Q a s) : Passes I (pure a : Steps S E A) s Q where
  safe := List.forall_mem_singleton.mpr hs
  ends := ⟨a, rfl, hQ⟩

theorem look {f : S → Except E A} {a : A} (hs : I s) (h : f s = .ok a) (hQ : Q a s) :
    Passes I (look f) s Q where
  safe := List.forall_mem_singleton.mpr hs
  ends := ⟨a, h, hQ⟩

theorem change {f : S → S} {Q : PUnit → S → Prop} (hs : I s) (ht : I (f s)) (hQ : Q ⟨⟩ (f s)) :
    Passes I (change f : Steps S E PUnit) s Q where
  safe := List.forall_mem_cons.mpr ⟨hs, List.forall_mem_singleton.mpr ht⟩
  ends := ⟨⟨⟩, rfl, hQ⟩

theorem bind (hp : Passes I p s R) (hq : ∀ a t, R a t → Passes I (q a) t T) :
    Passes I (p >>= q) s T := by
  obtain ⟨a, hresult, hR⟩ := hp.ends
  have hrest := hq a (p s).final hR
  constructor
  · rw [bind_eq_of_ok hresult]
    intro t ht
    rcases List.mem_append.mp ht with hleft | hright
    · exact hp.safe t hleft
    · exact hrest.safe t hright
  · rw [bind_eq_of_ok hresult]
    exact hrest.ends

theorem mono {J : S → Prop} (h : Passes I p s Q) (hsafe : ∀ t, I t → J t)
    (hends : ∀ a t, Q a t → R a t) : Passes J p s R where
  safe := fun t ht => hsafe t (h.safe t ht)
  ends := by
    obtain ⟨a, hresult, hQ⟩ := h.ends
    exact ⟨a, hresult, hends a _ hQ⟩

/-- Steps that overwrite each other leave the work of the last one. -/
theorem changes {C : Type*} {f : C → S → S} (hover : ∀ c d s, f c (f d s) = f c s) {l : List C}
    {last : C} (hs : I s) (hsteps : ∀ c ∈ l ++ [last], I (f c s)) :
    Passes I (changes f (l ++ [last]) : Steps S E PUnit) s fun _ t => t = f last s := by
  induction l generalizing s with
  | nil =>
    have hlast : I (f last s) := hsteps last List.mem_cons_self
    refine bind (R := fun _ t => t = f last s) (change hs hlast rfl) ?_
    intro _ t h
    subst h
    exact pure hlast rfl
  | cons c rest ih =>
    have hc : I (f c s) := hsteps c List.mem_cons_self
    refine bind (R := fun _ t => t = f c s) (change hs hc rfl) ?_
    intro _ t h
    subst h
    have hrest := ih (s := f c s) hc fun d hd => by
      rw [hover]
      exact hsteps d (List.mem_cons_of_mem c hd)
    rw [hover] at hrest
    exact hrest

end Passes

end Steps

end SqlServerMcp.Interruptions
