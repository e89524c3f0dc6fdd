import SqlServerMcp.Runs
import Mathlib.Data.List.Induction
import Mathlib.Logic.Function.Basic

/-!
Callers that share a state behind one lock. A caller waits, takes the lock and
moves through its section step by step while others come and go; it gives the
lock back at the end, or when it is dropped on the way. Whatever the order of
the events, the shared state is the one that the sections leave when they run
one after another, in the order in which they took the lock.
-/
namespace SqlServerMcp.CriticalSections

open Function Runs

/-- Where a caller is; inside its section and after it, at which position. -/
inductive Phase (L : Type*) where
  | waiting
  | inside (position : L)
  | left (position : L)
  | dropped

structure State (C S L : Type*) where
  shared : S
  locked : Bool
  phase : C → Option (Phase L)

inductive Event (C I : Type*) where
  | request (c : C)
  | acquire (c : C)
  | advance (c : C) (input : I)
  | release (c : C)
  | drop (c : C)

/-- What one caller does between taking the lock and giving it back: it is told
something at each of its steps. -/
structure Section (C I : Type*) where
  caller : C
  inputs : List I

variable {C S L I : Type*}

def initial (shared : S) : State C S L := ⟨shared, false, fun _ => none⟩

def State.setPhase [DecidableEq C] (t : State C S L) (c : C) (phase : Phase L) : State C S L :=
  { t with phase := update t.phase c (some phase) }

section Step

variable (start : C → L) (advance : S → L → I → Option (S × L)) (finished : L → Bool)

/-- A step of one caller. Only the one that holds the lock moves on, and only a
finished one gives it back. -/
def step [DecidableEq C] (t : State C S L) : Event C I → Option (State C S L)
  | .request c =>
    match t.phase c with
    | none => some (t.setPhase c .waiting)
    | some _ => none
  | .acquire c =>
    match t.phase c, t.locked with
    | some .waiting, false => some ({ t with locked := true }.setPhase c (.inside (start c)))
    | _, _ => none
  | .advance c input =>
    match t.phase c with
    | some (.inside position) => (advance t.shared position input).map fun next =>
        { t with shared := next.1 }.setPhase c (.inside next.2)
    | _ => none
  | .release c =>
    match t.phase c with
    | some (.inside position) =>
      if finished position then some ({ t with locked := false }.setPhase c (.left position))
      else none
    | _ => none
  | .drop c =>
    match t.phase c with
    | some .waiting => some (t.setPhase c .dropped)
    | some (.inside _) => some ({ t with locked := false }.setPhase c .dropped)
    | _ => none

/-- What a step can do, with all that it takes for it. -/
inductive Moves [DecidableEq C] (t : State C S L) : Event C I → State C S L → Prop
  | request {c : C} (hphase : t.phase c = none) :
      Moves t (.request c) (t.setPhase c .waiting)
  | acquire {c : C} (hphase : t.phase c = some .waiting) (hfree : t.locked = false) :
      Moves t (.acquire c) ({ t with locked := true }.setPhase c (.inside (start c)))
  | advance {c : C} {input : I} {position position' : L} {shared' : S}
      (hphase : t.phase c = some (.inside position))
      (hadvance : advance t.shared position input = some (shared', position')) :
      Moves t (.advance c input) ({ t with shared := shared' }.setPhase c (.inside position'))
  | release {c : C} {position : L} (hphase : t.phase c = some (.inside position))
      (hfinished : finished position = true) :
      Moves t (.release c) ({ t with locked := false }.setPhase c (.left position))
  | abandon {c : C} (hphase : t.phase c = some .waiting) :
      Moves t (.drop c) (t.setPhase c .dropped)
  | cut {c : C} {position : L} (hphase : t.phase c = some (.inside position)) :
      Moves t (.drop c) ({ t with locked := false }.setPhase c .dropped)

theorem moves_of_step [DecidableEq C] {t t' : State C S L} {e : Event C I}
    (h : step start advance finished t e = some t') : Moves start advance finished t e t' := by
  cases e with
  | request c =>
    cases hphase : t.phase c with
    | none =>
      simp only [step, hphase, Option.some.injEq] at h
      exact h ▸ .request hphase
    | some phase => simp only [step, hphase, reduceCtorEq] at h
  | acquire c =>
    simp only [step] at h
    split at h
    · rename_i hphase hfree
      exact Option.some.inj h ▸ .acquire hphase hfree
    · contradiction
  | advance c input =>
    simp only [step] at h
    split at h
    · rename_i position hphase
      obtain ⟨next, hnext, rfl⟩ := Option.map_eq_some_iff.mp h
      exact .advance hphase hnext
    · contradiction
  | release c =>
    simp only [step] at h
    split at h
    · rename_i position hphase
      split at h
      · rename_i hfinished
        exact Option.some.inj h ▸ .release hphase hfinished
      · contradiction
    · contradiction
  | drop c =>
    simp only [step] at h
    split at h
    · rename_i hphase
      exact Option.some.inj h ▸ .abandon hphase
    · rename_i position hphase
      exact Option.some.inj h ▸ .cut hphase
    · contradiction

/-- A section that runs alone, from the state that it finds. -/
def runSection (shared : S) (sec : Section C I) : Option (S × L) :=
  run (fun at_ input => advance at_.1 at_.2 input) (shared, start sec.caller) sec.inputs

def serve (shared : S) (sec : Section C I) : Option S :=
  (runSection start advance shared sec).map Prod.fst

variable {start advance}

theorem serve_of_runSection {s s' : S} {sec : Section C I} {position : L}
    (h : runSection start advance s sec = some (s', position)) :
    serve start advance s sec = some s' := by
  rw [serve, h, Option.map_some]

end Step

def Event.acquired : Event C I → Option C
  | .acquire c => some c
  | _ => none

def Event.inputOf [DecidableEq C] (c : C) : Event C I → Option I
  | .advance c' input => if c' = c then some input else none
  | _ => none

def inputsOf [DecidableEq C] (events : List (Event C I)) (c : C) : List I :=
  events.filterMap (Event.inputOf c)

/-- The sections of a run, in the order in which they took the lock. -/
def sections [DecidableEq C] (events : List (Event C I)) : List (Section C I) :=
  (events.filterMap Event.acquired).map fun c => ⟨c, inputsOf events c⟩

section Events

variable [DecidableEq C]

theorem inputsOf_concat (events : List (Event C I)) (e : Event C I) (c : C) :
    inputsOf (events ++ [e]) c = inputsOf events c ++ (e.inputOf c).toList := by
  unfold inputsOf
  rw [List.filterMap_append]
  cases h : e.inputOf c <;> simp [h]

/-- An event that neither takes the lock nor tells anything adds nothing. -/
theorem sections_concat_of_silent {e : Event C I} (hacquired : e.acquired = none)
    (hinput : ∀ c, e.inputOf c = none) (events : List (Event C I)) :
    sections (events ++ [e]) = sections events := by
  unfold sections
  rw [List.filterMap_append, List.filterMap_cons_none hacquired, List.filterMap_nil,
    List.append_nil]
  refine List.map_congr_left ?_
  intro c _
  rw [inputsOf_concat, hinput, Option.toList_none, List.append_nil]

theorem sections_concat_acquire (events : List (Event C I)) (c : C)
    (hnew : inputsOf events c = []) :
    sections (events ++ [.acquire c]) = sections events ++ [⟨c, []⟩] := by
  have hinputs : ∀ c', inputsOf (events ++ [.acquire c]) c' = inputsOf events c' := by
    intro c'
    rw [inputsOf_concat]
    exact List.append_nil _
  unfold sections
  simp only [List.filterMap_append, List.map_append, hinputs]
  simp [Event.acquired, hnew]

theorem sections_concat_advance (events : List (Event C I)) (c : C) (input : I) :
    sections (events ++ [.advance c input]) = (sections events).map fun sec =>
      if sec.caller = c then { sec with inputs := sec.inputs ++ [input] } else sec := by
  unfold sections
  rw [List.filterMap_append, List.filterMap_cons_none rfl, List.filterMap_nil, List.append_nil,
    List.map_map]
  refine List.map_congr_left ?_
  intro c' _
  rw [inputsOf_concat]
  by_cases hc : c' = c
  · subst hc
    simp [Event.inputOf]
  · simp [Event.inputOf, hc, Ne.symm hc]

end Events

section Serial

variable [DecidableEq C]

@[simp] theorem phase_setPhase_self (t : State C S L) (c : C) (phase : Phase L) :
    (t.setPhase c phase).phase c = some phase := update_self ..

theorem phase_setPhase_of_ne (t : State C S L) {c c' : C} (h : c' ≠ c) (phase : Phase L) :
    (t.setPhase c phase).phase c' = t.phase c' := update_of_ne h ..

variable (start : C → L) (advance : S → L → I → Option (S × L))

/-- The sections that are over ran one after another and left the state `s`. -/
structure Closed (s₀ : S) (t : State C S L) (closed : List (Section C I)) (s : S) : Prop where
  ran : run (serve start advance) s₀ closed = some s
  ended : ∀ sec ∈ closed, t.phase sec.caller = some .dropped ∨
    ∃ position, t.phase sec.caller = some (.left position)
  left : ∀ c position, t.phase c = some (.left position) →
    ∃ before sec after s₁ s₂, closed = before ++ sec :: after ∧ sec.caller = c ∧
      run (serve start advance) s₀ before = some s₁ ∧
      runSection start advance s₁ sec = some (s₂, position)

/-- The section that holds the lock, if there is one: it started from `s`. -/
inductive Open (s : S) (t : State C S L) : Option (Section C I) → Prop
  | free (hlocked : t.locked = false) (hshared : t.shared = s)
      (hinside : ∀ c position, t.phase c ≠ some (.inside position)) : Open s t none
  | held {sec : Section C I} {position : L} (hlocked : t.locked = true)
      (hphase : t.phase sec.caller = some (.inside position))
      (hran : runSection start advance s sec = some (t.shared, position))
      (honly : ∀ c position', t.phase c = some (.inside position') → c = sec.caller) :
      Open s t (some sec)

/-- The events so far are sections that are over and at most one that is open. -/
structure Serialized (s₀ : S) (events : List (Event C I)) (t : State C S L) : Prop where
  split : ∃ closed s last, sections events = closed ++ last.toList ∧
    Closed start advance s₀ t closed s ∧ Open start advance s t last
  fresh : ∀ c, t.phase c = none ∨ t.phase c = some .waiting → inputsOf events c = []

variable {start advance} {s₀ s : S} {t t' : State C S L} {events : List (Event C I)}
  {closed : List (Section C I)} {c : C}

theorem serialized_initial : Serialized start advance s₀ [] (initial s₀ : State C S L) where
  split := ⟨[], s₀, none, rfl, ⟨rfl, nofun, nofun⟩, .free rfl rfl nofun⟩
  fresh _ _ := rfl

/-- What is over stays over when a caller moves that is not over yet. -/
theorem Closed.move (h : Closed start advance s₀ t closed s) {phase : Phase L} {shared : S}
    {locked : Bool} (hover : t.phase c ≠ some .dropped)
    (hleft : ∀ position, t.phase c ≠ some (.left position))
    (hphase : ∀ position, phase ≠ .left position) :
    Closed start advance s₀ (State.setPhase ⟨shared, locked, t.phase⟩ c phase) closed s where
  ran := h.ran
  ended := by
    intro sec hsec
    have hne : sec.caller ≠ c := by
      intro heq
      rcases h.ended sec hsec with hdropped | hdone
      · exact hover (heq ▸ hdropped)
      · obtain ⟨position, hposition⟩ := hdone
        exact hleft position (heq ▸ hposition)
    rw [phase_setPhase_of_ne _ hne]
    exact h.ended sec hsec
  left := by
    intro c' position hposition
    by_cases hc : c' = c
    · subst hc
      rw [phase_setPhase_self] at hposition
      exact absurd (Option.some.inj hposition) (hphase position)
    · rw [phase_setPhase_of_ne _ hc] at hposition
      exact h.left c' position hposition

/-- The open section is over: its caller is dropped, or leaves where it stands. -/
theorem Closed.close (h : Closed start advance s₀ t closed s) {sec : Section C I} {position : L}
    (hran : runSection start advance s sec = some (t.shared, position)) {phase : Phase L}
    (hend : phase = .dropped ∨ phase = .left position) :
    Closed start advance s₀ (State.setPhase { t with locked := false } sec.caller phase)
      (closed ++ [sec]) t.shared where
  ran := run_append h.ran (run_cons_of_step (serve_of_runSection hran) [])
  ended := by
    intro sec' hsec'
    by_cases hc : sec'.caller = sec.caller
    · rw [hc, phase_setPhase_self]
      rcases hend with rfl | rfl
      · exact Or.inl rfl
      · exact Or.inr ⟨position, rfl⟩
    · rw [phase_setPhase_of_ne _ hc]
      rcases List.mem_append.mp hsec' with hmem | hmem
      · exact h.ended sec' hmem
      · exact absurd (congrArg Section.caller (List.mem_singleton.mp hmem)) hc
  left := by
    intro c' position' hposition
    by_cases hc : c' = sec.caller
    · subst hc
      rw [phase_setPhase_self] at hposition
      rcases hend with rfl | rfl
      · exact absurd (Option.some.inj hposition) nofun
      · cases hposition
        exact ⟨closed, sec, [], s, t.shared, rfl, rfl, h.ran, hran⟩
    · rw [phase_setPhase_of_ne _ hc] at hposition
      obtain ⟨before, sec', after, s₁, s₂, hsplit, hcaller, hbefore, hsec'⟩ :=
        h.left c' position' hposition
      refine ⟨before, sec', after ++ [sec], s₁, s₂, ?_, hcaller, hbefore, hsec'⟩
      rw [hsplit, List.append_assoc, List.cons_append]

theorem Open.close {last : Option (Section C I)} (h : Open start advance s t last) {position : L}
    (hphase : t.phase c = some (.inside position)) {phase : Phase L}
    (hend : ∀ position', phase ≠ .inside position') :
    ∃ sec, last = some sec ∧ sec.caller = c ∧
      runSection start advance s sec = some (t.shared, position) ∧
      Open start advance t.shared (State.setPhase { t with locked := false } c phase)
        (none : Option (Section C I)) := by
  cases h with
  | free hlocked hshared hinside => exact absurd hphase (hinside c position)
  | @held sec position' hlocked hphase' hran honly =>
    have hcaller := honly c position hphase
    subst hcaller
    have hsame : position' = position := by
      rw [hphase'] at hphase
      exact Phase.inside.inj (Option.some.inj hphase)
    subst hsame
    refine ⟨sec, rfl, rfl, hran, .free rfl rfl ?_⟩
    intro c' position'' hinside
    by_cases hc : c' = sec.caller
    · subst hc
      rw [phase_setPhase_self] at hinside
      exact hend position'' (Option.some.inj hinside)
    · rw [phase_setPhase_of_ne _ hc] at hinside
      exact hc (honly c' position'' hinside)

/-- A caller that is outside its section moves without entering it. -/
theorem Open.move {last : Option (Section C I)} (h : Open start advance s t last)
    {phase : Phase L} (hc : ∀ position, t.phase c ≠ some (.inside position))
    (hphase : ∀ position, phase ≠ .inside position) :
    Open start advance s (t.setPhase c phase) last := by
  have hkeep : ∀ c' position, (t.setPhase c phase).phase c' = some (.inside position) →
      t.phase c' = some (.inside position) := by
    intro c' position hinside
    by_cases heq : c' = c
    · subst heq
      rw [phase_setPhase_self] at hinside
      exact absurd (Option.some.inj hinside) (hphase position)
    · rwa [phase_setPhase_of_ne _ heq] at hinside
  cases h with
  | free hlocked hshared hinside =>
    refine .free hlocked hshared ?_
    intro c' position h'
    exact hinside c' position (hkeep c' position h')
  | @held sec position hlocked hphase' hran honly =>
    have hne : sec.caller ≠ c := by
      intro heq
      exact hc position (heq ▸ hphase')
    refine .held hlocked ?_ hran ?_
    · rw [phase_setPhase_of_ne _ hne]
      exact hphase'
    · intro c' position' h'
      exact honly c' position' (hkeep c' position' h')

theorem fresh_move {phase : Phase L} {shared : S} {locked : Bool}
    (h : ∀ c, t.phase c = none ∨ t.phase c = some .waiting → inputsOf events c = [])
    {e : Event C I} (hinput : ∀ c', c' ≠ c → e.inputOf c' = none)
    (hc : phase ≠ .waiting ∨ (t.phase c = none ∨ t.phase c = some .waiting) ∧ e.inputOf c = none)
    (c' : C)
    (hnew : (State.setPhase ⟨shared, locked, t.phase⟩ c phase).phase c' = none ∨
      (State.setPhase ⟨shared, locked, t.phase⟩ c phase).phase c' = some .waiting) :
    inputsOf (events ++ [e]) c' = [] := by
  rw [inputsOf_concat]
  by_cases heq : c' = c
  · subst heq
    rw [phase_setPhase_self] at hnew
    have hwaiting : phase = .waiting := by
      rcases hnew with hnone | hsome
      · contradiction
      · exact Option.some.inj hsome
    rcases hc with hne | hkept
    · contradiction
    · rw [h c' hkept.1, hkept.2]
      rfl
  · rw [phase_setPhase_of_ne _ heq] at hnew
    rw [h c' hnew, hinput c' heq]
    rfl

theorem Serialized.step (h : Serialized start advance s₀ events t) {finished : L → Bool}
    {e : Event C I} (hstep : step start advance finished t e = some t') :
    Serialized start advance s₀ (events ++ [e]) t' := by
  obtain ⟨closed, s, last, hsplit, hclosed, hopen⟩ := h.split
  cases moves_of_step start advance finished hstep with
  | @request c hphase =>
    have hsame := sections_concat_of_silent (e := .request c) rfl (fun _ => rfl) events
    refine ⟨⟨closed, s, last, hsame.trans hsplit, ?_, ?_⟩, ?_⟩
    · exact hclosed.move (by simp [hphase]) (by simp [hphase]) nofun
    · exact hopen.move (by simp [hphase]) nofun
    · exact fresh_move h.fresh (fun _ _ => rfl) (Or.inr ⟨Or.inl hphase, rfl⟩)
  | @acquire c hphase hfree =>
    have hnew := h.fresh c (Or.inr hphase)
    cases hopen with
    | held hlocked => exact absurd (hfree.symm.trans hlocked) nofun
    | free hlocked hshared hinside =>
      refine ⟨⟨closed, s, some ⟨c, []⟩, ?_, ?_, ?_⟩, ?_⟩
      · rw [sections_concat_acquire events c hnew, hsplit, Option.toList_none, List.append_nil]
        rfl
      · exact hclosed.move (by simp [hphase]) (by simp [hphase]) nofun
      · refine .held rfl (phase_setPhase_self ..) ?_ ?_
        · rw [← hshared]
          rfl
        · intro c' position' hinside'
          by_contra hc
          rw [phase_setPhase_of_ne _ hc] at hinside'
          exact hinside c' position' hinside'
      · exact fresh_move h.fresh (fun _ _ => rfl) (Or.inl nofun)
  | @advance c input position position' shared' hphase hadvance =>
    cases hopen with
    | free hlocked hshared hinside => exact absurd hphase (hinside c position)
    | @held sec position'' hlocked hphase' hran honly =>
      have hcaller := honly c position hphase
      subst hcaller
      have hsame : position'' = position := by
        rw [hphase'] at hphase
        exact Phase.inside.inj (Option.some.inj hphase)
      subst hsame
      -- only the open section is told something: the callers before it are over
      have hothers : closed.map (fun sec' => if sec'.caller = sec.caller then
          { sec' with inputs := sec'.inputs ++ [input] } else sec') = closed := by
        refine (List.map_congr_left ?_).trans (List.map_id closed)
        intro sec' hsec'
        refine if_neg ?_
        intro hcaller
        rcases hclosed.ended sec' hsec' with hdropped | hleft
        · rw [hcaller, hphase] at hdropped
          exact nomatch Option.some.inj hdropped
        · obtain ⟨position₃, hleft⟩ := hleft
          rw [hcaller, hphase] at hleft
          exact nomatch Option.some.inj hleft
      refine ⟨⟨closed, s, some { sec with inputs := sec.inputs ++ [input] }, ?_, ?_, ?_⟩, ?_⟩
      · rw [sections_concat_advance, hsplit, List.map_append, hothers]
        simp
      · exact hclosed.move (by simp [hphase]) (by simp [hphase]) nofun
      · refine .held hlocked (phase_setPhase_self ..) ?_ ?_
        · exact run_concat_eq_some_iff.mpr ⟨_, hran, hadvance⟩
        · intro c' position₃ hinside'
          by_contra hc
          rw [phase_setPhase_of_ne _ hc] at hinside'
          exact hc (honly c' position₃ hinside')
      · refine fresh_move h.fresh ?_ (Or.inl nofun)
        intro c' hc
        exact if_neg (Ne.symm hc)
  | @release c position hphase hfinished =>
    have hsame := sections_concat_of_silent (e := .release c) rfl (fun _ => rfl) events
    have hend : ∀ position', Phase.left position ≠ Phase.inside position' := nofun
    obtain ⟨sec, rfl, rfl, hran, hfree⟩ := hopen.close hphase hend
    refine ⟨⟨closed ++ [sec], t.shared, none, ?_, ?_, hfree⟩, ?_⟩
    · rw [hsame, hsplit, Option.toList_some, Option.toList_none, List.append_nil]
    · exact hclosed.close hran (Or.inr rfl)
    · exact fresh_move h.fresh (fun _ _ => rfl) (Or.inl nofun)
  | @abandon c hphase =>
    have hsame := sections_concat_of_silent (e := .drop c) rfl (fun _ => rfl) events
    refine ⟨⟨closed, s, last, hsame.trans hsplit, ?_, ?_⟩, ?_⟩
    · exact hclosed.move (by simp [hphase]) (by simp [hphase]) nofun
    · exact hopen.move (by simp [hphase]) nofun
    · exact fresh_move h.fresh (fun _ _ => rfl) (Or.inl nofun)
  | @cut c position hphase =>
    have hsame := sections_concat_of_silent (e := .drop c) rfl (fun _ => rfl) events
    have hend : ∀ position', (Phase.dropped : Phase L) ≠ Phase.inside position' := nofun
    obtain ⟨sec, rfl, rfl, hran, hfree⟩ := hopen.close hphase hend
    refine ⟨⟨closed ++ [sec], t.shared, none, ?_, ?_, hfree⟩, ?_⟩
    · rw [hsame, hsplit, Option.toList_some, Option.toList_none, List.append_nil]
    · exact hclosed.close hran (Or.inl rfl)
    · exact fresh_move h.fresh (fun _ _ => rfl) (Or.inl nofun)

theorem serialized_run {finished : L → Bool} (events : List (Event C I)) {t : State C S L}
    (h : run (CriticalSections.step start advance finished) (initial s₀) events = some t) :
    Serialized start advance s₀ events t := by
  induction events using List.reverseRecOn generalizing t with
  | nil => exact Option.some.inj h ▸ serialized_initial
  | append_singleton events e ih =>
    obtain ⟨t', ht', hstep⟩ := run_concat_eq_some_iff.mp h
    exact (ih ht').step hstep

theorem finished_of_left {finished : L → Bool} (events : List (Event C I)) {t : State C S L}
    (h : run (CriticalSections.step start advance finished) (initial s₀) events = some t)
    {c : C} {position : L} (hc : t.phase c = some (.left position)) : finished position = true := by
  have hkept : ∀ t e t', (∀ c position, t.phase c = some (.left position) →
      finished position = true) → CriticalSections.step start advance finished t e = some t' →
      ∀ c position, t'.phase c = some (.left position) → finished position = true := by
    intro t e t' ht hstep c position hposition
    have hmove : ∀ {c'} {phase : Phase L} {shared : S} {locked : Bool},
        (State.setPhase ⟨shared, locked, t.phase⟩ c' phase).phase c = some (.left position) →
          (∀ position', phase = .left position' → finished position' = true) →
            finished position = true := by
      intro c' phase shared locked hphase hfinished
      by_cases heq : c = c'
      · subst heq
        rw [phase_setPhase_self] at hphase
        exact hfinished position (Option.some.inj hphase)
      · rw [phase_setPhase_of_ne _ heq] at hphase
        exact ht c position hphase
    cases moves_of_step start advance finished hstep with
    | request | acquire | advance | abandon | cut => exact hmove hposition nofun
    | release hphase hfinished =>
      refine hmove hposition ?_
      intro position' heq
      exact Phase.left.inj heq ▸ hfinished
  have hinitial : ∀ c position, (initial s₀ : State C S L).phase c = some (.left position) →
      finished position = true := nofun
  exact invariant_of_reached hkept hinitial (reached_last h) c position hc

/-- The shared state is that of the sections one after another. -/
theorem Serialized.shared (h : Serialized start advance s₀ events t) :
    run (serve start advance) s₀ (sections events) = some t.shared := by
  obtain ⟨closed, s, last, hsplit, hclosed, hopen⟩ := h.split
  rw [hsplit]
  cases hopen with
  | free hlocked hshared hinside =>
    rw [Option.toList_none, List.append_nil, hshared]
    exact hclosed.ran
  | held hlocked hphase hran honly =>
    exact run_append hclosed.ran (run_cons_of_step (serve_of_runSection hran) [])

theorem Serialized.exclusive (h : Serialized start advance s₀ events t) {c c' : C}
    {position position' : L} (hc : t.phase c = some (.inside position))
    (hc' : t.phase c' = some (.inside position')) : c = c' := by
  obtain ⟨closed, s, last, hsplit, hclosed, hopen⟩ := h.split
  cases hopen with
  | free hlocked hshared hinside => exact absurd hc (hinside c position)
  | held hlocked hphase hran honly =>
    exact (honly c position hc).trans (honly c' position' hc').symm

/-- A caller that has left stands where its section, run alone after the ones
before it, has brought it. -/
theorem Serialized.left (h : Serialized start advance s₀ events t) {c : C} {position : L}
    (hc : t.phase c = some (.left position)) :
    ∃ before sec after s₁ s₂, sections events = before ++ sec :: after ∧ sec.caller = c ∧
      run (serve start advance) s₀ before = some s₁ ∧
      runSection start advance s₁ sec = some (s₂, position) := by
  obtain ⟨closed, s, last, hsplit, hclosed, hopen⟩ := h.split
  obtain ⟨before, sec, after, s₁, s₂, hmem, hcaller, hbefore, hsec⟩ := hclosed.left c position hc
  refine ⟨before, sec, after ++ last.toList, s₁, s₂, ?_, hcaller, hbefore, hsec⟩
  rw [hsplit, hmem, List.append_assoc, List.cons_append]

end Serial

end SqlServerMcp.CriticalSections
