import SqlServerMcp.JsonValue

/-!
JSON values with the members under some keys replaced by a mark. Values that only
differ below such keys become equal, and only those.
-/
namespace SqlServerMcp.Redaction

open JsonValue

/-- Induction over a value through its items and members. -/
theorem json_induction {motive : Json → Prop} (hnull : motive .null)
    (hbool : ∀ b, motive (.bool b)) (hnum : ∀ n, motive (.num n)) (hstr : ∀ s, motive (.str s))
    (harr : ∀ items : List Json, (∀ v ∈ items, motive v) → motive (.arr items))
    (hobj : ∀ fields : Fields, (∀ e ∈ fields, motive e.2) → motive (.obj fields)) :
    ∀ v, motive v
  | .null => hnull
  | .bool b => hbool b
  | .num n => hnum n
  | .str s => hstr s
  | .arr items => harr items fun v _ => json_induction hnull hbool hnum hstr harr hobj v
  | .obj fields => hobj fields fun e _ => json_induction hnull hbool hnum hstr harr hobj e.2
termination_by v => sizeOf v
decreasing_by
  · have hlt := List.sizeOf_lt_of_mem ‹v ∈ items›
    simp only [Json.arr.sizeOf_spec]
    omega
  · have hlt := List.sizeOf_lt_of_mem ‹e ∈ fields›
    have hsnd : sizeOf e.2 < sizeOf e := by
      cases e
      simp only [Prod.mk.sizeOf_spec]
      omega
    simp only [Json.obj.sizeOf_spec]
    omega

section Redact

variable (hidden : String → Bool) (mark : Json)

mutual

def redact : Json → Json
  | .arr items => .arr (redactItems items)
  | .obj fields => .obj (redactFields fields)
  | other => other

def redactItems : List Json → List Json
  | [] => []
  | v :: rest => redact v :: redactItems rest

def redactFields : List (String × Json) → List (String × Json)
  | [] => []
  | (key, v) :: rest => (key, if hidden key then mark else redact v) :: redactFields rest

end

/-- The value of a member after it was redacted. -/
def redactMember (e : String × Json) : String × Json :=
  (e.1, if hidden e.1 then mark else redact hidden mark e.2)

/-- Two values that differ only in what lies under hidden keys, at any depth. -/
inductive SameOutside : Json → Json → Prop
  | refl (v : Json) : SameOutside v v
  | trans {u v w : Json} : SameOutside u v → SameOutside v w → SameOutside u w
  | hidden (before : Fields) (key : String) (v w : Json) (after : Fields) :
      hidden key = true →
      SameOutside (.obj (before ++ (key, v) :: after)) (.obj (before ++ (key, w) :: after))
  | member {v w : Json} (before : Fields) (key : String) (after : Fields) :
      SameOutside v w →
      SameOutside (.obj (before ++ (key, v) :: after)) (.obj (before ++ (key, w) :: after))
  | item {v w : Json} (before after : List Json) :
      SameOutside v w → SameOutside (.arr (before ++ v :: after)) (.arr (before ++ w :: after))

/-- A value within another one, at any depth. -/
inductive Inside : Json → Json → Prop
  | self (v : Json) : Inside v v
  | item {u v : Json} {items : List Json} : v ∈ items → Inside u v → Inside u (.arr items)
  | member {u v : Json} {key : String} {fields : Fields} :
      (key, v) ∈ fields → Inside u v → Inside u (.obj fields)

end Redact

variable {hidden : String → Bool} {mark : Json}

theorem redact_arr (items : List Json) :
    redact hidden mark (.arr items) = .arr (items.map (redact hidden mark)) := by
  have hitems : ∀ l, redactItems hidden mark l = l.map (redact hidden mark) := by
    intro l
    induction l with
    | nil => rw [redactItems, List.map_nil]
    | cons v rest ih => rw [redactItems, ih, List.map_cons]
  rw [redact, hitems]

theorem redact_obj (fields : Fields) :
    redact hidden mark (.obj fields) = .obj (fields.map (redactMember hidden mark)) := by
  have hfields : ∀ l, redactFields hidden mark l = l.map (redactMember hidden mark) := by
    intro l
    induction l with
    | nil => rw [redactFields, List.map_nil]
    | cons e rest ih => rw [redactFields, ih, List.map_cons, redactMember]
  rw [redact, hfields]

theorem redactMember_of_hidden {key : String} (h : hidden key = true) (v : Json) :
    redactMember hidden mark (key, v) = (key, mark) := by
  simp only [redactMember, h, if_true]

/-- What lies under hidden keys is lost. -/
theorem redact_eq_of_sameOutside {v w : Json} (h : SameOutside hidden v w) :
    redact hidden mark v = redact hidden mark w := by
  induction h with
  | refl v => rfl
  | trans _ _ ihu ihv => exact ihu.trans ihv
  | hidden before key v w after hkey =>
    rw [redact_obj, redact_obj, List.map_append, List.map_append, List.map_cons, List.map_cons,
      redactMember_of_hidden hkey, redactMember_of_hidden hkey]
  | member before key after _ ih =>
    rw [redact_obj, redact_obj, List.map_append, List.map_append, List.map_cons, List.map_cons,
      redactMember, redactMember, ih]
  | item before after _ ih =>
    rw [redact_arr, redact_arr, List.map_append, List.map_append, List.map_cons, List.map_cons, ih]

namespace SameOutside

theorem symm {v w : Json} (h : SameOutside hidden v w) : SameOutside hidden w v := by
  induction h with
  | refl v => exact .refl v
  | trans _ _ ihu ihv => exact .trans ihv ihu
  | hidden before key v w after hkey => exact .hidden before key w v after hkey
  | member before key after _ ih => exact .member before key after ih
  | item before after _ ih => exact .item before after ih

/-- Items may be changed one after the other. -/
theorem items {f : Json → Json} (before : List Json) {l : List Json}
    (h : ∀ v ∈ l, SameOutside hidden v (f v)) :
    SameOutside hidden (.arr (before ++ l)) (.arr (before ++ l.map f)) := by
  induction l generalizing before with
  | nil => exact .refl _
  | cons v rest ih =>
    rw [List.forall_mem_cons] at h
    have hrest := ih (before ++ [f v]) h.2
    rw [List.append_assoc, List.append_assoc] at hrest
    exact .trans (.item before rest h.1) hrest

/-- And so may members, where the value of a hidden key may change to any other. -/
theorem members {f : String × Json → Json} (before : Fields) {l : Fields}
    (h : ∀ e ∈ l, hidden e.1 = true ∨ SameOutside hidden e.2 (f e)) :
    SameOutside hidden (.obj (before ++ l)) (.obj (before ++ l.map fun e => (e.1, f e))) := by
  induction l generalizing before with
  | nil => exact .refl _
  | cons e rest ih =>
    rw [List.forall_mem_cons] at h
    have hrest := ih (before ++ [(e.1, f e)]) h.2
    rw [List.append_assoc, List.append_assoc] at hrest
    refine .trans ?_ hrest
    rcases h.1 with hhidden | hsame
    · exact .hidden before e.1 e.2 (f e) rest hhidden
    · exact .member before e.1 rest hsame

end SameOutside

/-- A redaction changes nothing but what lies under hidden keys. -/
theorem sameOutside_redact (v : Json) : SameOutside hidden v (redact hidden mark v) := by
  induction v using json_induction with
  | hnull | hbool | hnum | hstr =>
    rw [redact]
    · exact .refl _
    all_goals exact nofun
  | harr items ih =>
    rw [redact_arr]
    exact SameOutside.items [] ih
  | hobj fields ih =>
    rw [redact_obj]
    have hmembers : ∀ e ∈ fields, hidden e.1 = true ∨
        SameOutside hidden e.2 (if hidden e.1 then mark else redact hidden mark e.2) := by
      intro e he
      by_cases hkey : hidden e.1 = true
      · exact Or.inl hkey
      · right
        rw [if_neg hkey]
        exact ih e he
    exact SameOutside.members [] hmembers

/-- Values look the same once they are redacted exactly when they differ only in
what lies under hidden keys. -/
theorem redact_eq_iff (v w : Json) :
    redact hidden mark v = redact hidden mark w ↔ SameOutside hidden v w := by
  constructor
  · intro h
    have hv : SameOutside hidden v (redact hidden mark v) := sameOutside_redact v
    rw [h] at hv
    exact hv.trans (sameOutside_redact w).symm
  · exact redact_eq_of_sameOutside

theorem redact_redact (v : Json) :
    redact hidden mark (redact hidden mark v) = redact hidden mark v :=
  (redact_eq_of_sameOutside (sameOutside_redact v)).symm

theorem eq_arr_of_redact {v : Json} {items : List Json}
    (h : redact hidden mark v = .arr items) :
    ∃ items', v = .arr items' ∧ items = items'.map (redact hidden mark) := by
  cases v with
  | arr items' =>
    rw [redact_arr] at h
    exact ⟨items', rfl, (Json.arr.inj h).symm⟩
  | obj fields =>
    rw [redact_obj] at h
    contradiction
  | null | bool | num | str => contradiction

theorem eq_obj_of_redact {v : Json} {fields : Fields} (h : redact hidden mark v = .obj fields) :
    ∃ fields', v = .obj fields' ∧ fields = fields'.map (redactMember hidden mark) := by
  cases v with
  | obj fields' =>
    rw [redact_obj] at h
    exact ⟨fields', rfl, (Json.obj.inj h).symm⟩
  | arr items =>
    rw [redact_arr] at h
    contradiction
  | null | bool | num | str => contradiction

/-- In every object within a redacted value the hidden keys have the mark, if no
object is within the mark. -/
theorem eq_mark_of_inside (hmark : ∀ fields, ¬ Inside (.obj fields) mark) {v : Json}
    {fields : Fields} (h : Inside (.obj fields) (redact hidden mark v)) :
    ∀ e ∈ fields, hidden e.1 = true → e.2 = mark := by
  generalize hr : redact hidden mark v = r at h
  induction h generalizing v with
  | self =>
    obtain ⟨fields', -, rfl⟩ := eq_obj_of_redact hr
    intro e he hkey
    obtain ⟨member, -, rfl⟩ := List.mem_map.mp he
    exact if_pos hkey
  | item hmem _ ih =>
    obtain ⟨items', -, rfl⟩ := eq_arr_of_redact hr
    obtain ⟨v', -, rfl⟩ := List.mem_map.mp hmem
    exact ih rfl
  | @member value key others hmem hinside ih =>
    obtain ⟨fields', -, rfl⟩ := eq_obj_of_redact hr
    obtain ⟨member, -, hmember⟩ := List.mem_map.mp hmem
    have hvalue : value = if hidden member.1 then mark else redact hidden mark member.2 :=
      (Prod.mk.inj hmember).2.symm
    by_cases hkey : hidden member.1 = true
    · rw [hvalue, if_pos hkey] at hinside
      exact absurd hinside (hmark fields)
    · rw [if_neg hkey] at hvalue
      exact ih hvalue.symm

end SqlServerMcp.Redaction
