import SqlServerMcp.AssocMap
import SqlServerMcp.FixedWidth

/-!
JSON values as a parser delivers them: an object is an association list in
iteration order. A number is an integer of the unsigned or signed 64-bit range,
or a finite binary64 value given by its bits. Two values that differ in the
iteration order of their objects only, at any depth, are `Reordered`.
-/
namespace SqlServerMcp.JsonValue

open AssocMap FixedWidth

/-- Integers from -2^63 to 2^64 - 1 are kept exactly. -/
abbrev JsonInt := RangedInt (-2 ^ 63) (2 ^ 64)

inductive Number where
  | int (value : JsonInt)
  | float (bits : UInt64)
  deriving DecidableEq

inductive Json where
  | null
  | bool (value : Bool)
  | num (value : Number)
  | str (value : String)
  | arr (items : List Json)
  | obj (fields : List (String × Json))
  deriving Inhabited

abbrev Fields := Entries String Json

abbrev JsonMap := Map String Json

namespace Json

/-- Member access; `none` on anything but an object. -/
def get (j : Json) (key : String) : Option Json :=
  match j with
  | obj fields => fields.lookup key
  | _ => none

def asObject : Json → Option Fields
  | obj fields => some fields
  | _ => none

def asStr : Json → Option String
  | str value => some value
  | _ => none

def asU64 : Json → Option ℕ
  | num (.int i) => if 0 ≤ i.val then some i.val.toNat else none
  | _ => none

def asI64 : Json → Option I64
  | num (.int i) => RangedInt.tryFrom (-2 ^ 63) (2 ^ 63) i.val
  | _ => none

def ofBounded {lo hi : ℤ} (i : RangedInt lo hi) (hlo : -2 ^ 63 ≤ lo) (hhi : hi ≤ 2 ^ 64) : Json :=
  num (.int (i.widen hlo hhi))

theorem ofBounded_injective {lo hi : ℤ} (hlo : -2 ^ 63 ≤ lo) (hhi : hi ≤ 2 ^ 64) :
    Function.Injective (fun i : RangedInt lo hi => ofBounded i hlo hhi) := by
  intro a b h
  exact RangedInt.widen_injective hlo hhi (Number.int.inj (num.inj h))

@[simp] theorem get_obj (fields : Fields) (key : String) :
    (obj fields).get key = fields.lookup key := rfl

theorem get_eq_some_iff (j : Json) (key : String) (v : Json) :
    j.get key = some v ↔ ∃ fields, j = obj fields ∧ fields.lookup key = some v := by
  cases j <;> simp [get]

end Json

section Text

/-- The escape of one character inside a JSON string. -/
def escapeChar (c : Char) : List Char :=
  if c = '"' then ['\\', '"']
  else if c = '\\' then ['\\', '\\']
  else if c = Char.ofNat 8 then ['\\', 'b']
  else if c = '\t' then ['\\', 't']
  else if c = '\n' then ['\\', 'n']
  else if c = Char.ofNat 12 then ['\\', 'f']
  else if c = '\r' then ['\\', 'r']
  else if c.toNat < 32 then
    ['\\', 'u', '0', '0', Nat.digitChar (c.toNat / 16), Nat.digitChar (c.toNat % 16)]
  else [c]

def quoteText (s : String) : String :=
  "\"" ++ String.ofList (s.toList.flatMap escapeChar) ++ "\""

-- The shortest decimal form of a binary64 number is a parameter.
variable (floatText : UInt64 → String)

def numberText : Number → String
  | .int i => toString i.val
  | .float bits => floatText bits

mutual

/-- Compact text, without blanks. -/
def compactText : Json → String
  | .null => "null"
  | .bool b => if b then "true" else "false"
  | .num n => numberText floatText n
  | .str s => quoteText s
  | .arr items => "[" ++ ",".intercalate (itemTexts items) ++ "]"
  | .obj fields => "\x7b" ++ ",".intercalate (fieldTexts fields) ++ "\x7d"

def itemTexts : List Json → List String
  | [] => []
  | j :: rest => compactText j :: itemTexts rest

def fieldTexts : List (String × Json) → List String
  | [] => []
  | (k, j) :: rest => (quoteText k ++ ":" ++ compactText j) :: fieldTexts rest

end

end Text

/-- Rewriting a value in the iteration order of its objects. An object that is
listed anew is a map, so its keys are distinct. -/
inductive Reordered : Json → Json → Prop
  | refl (j : Json) : Reordered j j
  | trans {a b c : Json} : Reordered a b → Reordered b c → Reordered a c
  | order {fields fields' : Fields} : DistinctKeys fields → fields.Perm fields' →
      Reordered (.obj fields) (.obj fields')
  | member {v w : Json} (before : Fields) (key : String) (after : Fields) :
      Reordered v w →
      Reordered (.obj (before ++ (key, v) :: after)) (.obj (before ++ (key, w) :: after))
  | item {v w : Json} (before after : List Json) :
      Reordered v w → Reordered (.arr (before ++ v :: after)) (.arr (before ++ w :: after))

namespace Reordered

private theorem optionRel_trans {a b c : Option Json} (hab : Option.Rel Reordered a b)
    (hbc : Option.Rel Reordered b c) : Option.Rel Reordered a c := by
  cases hab with
  | none => exact hbc
  | some h =>
    cases hbc with
    | some h' => exact Option.Rel.some (h.trans h')

private theorem optionRel_refl (a : Option Json) : Option.Rel Reordered a a := by
  cases a with
  | none => exact Option.Rel.none
  | some j => exact Option.Rel.some (refl j)

private theorem lookup_member {v w : Json} (before : Fields) (key : String) (after : Fields)
    (h : Reordered v w) (k : String) :
    Option.Rel Reordered ((before ++ (key, v) :: after).lookup k)
      ((before ++ (key, w) :: after).lookup k) := by
  induction before with
  | nil =>
    simp only [List.nil_append, lookup_cons]
    split
    · exact Option.Rel.some h
    · exact optionRel_refl _
  | cons e rest ih =>
    obtain ⟨k', v'⟩ := e
    simp only [List.cons_append, lookup_cons]
    split
    · exact optionRel_refl _
    · exact ih

/-- What a reordering of an object keeps: it is an object, every key reads a
reordering of the same value, and its entries are the same up to order for any
view of them that does not see the order inside the values. -/
theorem of_obj {a b : Json} (h : Reordered a b) (fields : Fields) (ha : a = .obj fields) :
    ∃ fields', b = .obj fields' ∧
      (∀ k, Option.Rel Reordered (fields.lookup k) (fields'.lookup k)) ∧
      (∀ {β : Type} (f : String → Json → β), (∀ k v w, Reordered v w → f k v = f k w) →
        (fields.map fun e => f e.1 e.2).Perm (fields'.map fun e => f e.1 e.2)) := by
  induction h generalizing fields with
  | refl j => exact ⟨fields, ha, fun k => optionRel_refl _, fun f _ => List.Perm.refl _⟩
  | trans _ _ ihab ihbc =>
    obtain ⟨fields₁, hb, hlookup₁, hmap₁⟩ := ihab fields ha
    obtain ⟨fields₂, hc, hlookup₂, hmap₂⟩ := ihbc fields₁ hb
    exact ⟨fields₂, hc, fun k => optionRel_trans (hlookup₁ k) (hlookup₂ k),
      fun f hf => (hmap₁ f hf).trans (hmap₂ f hf)⟩
  | @order g g' hdistinct hperm =>
    obtain rfl : g = fields := Json.obj.inj ha
    refine ⟨g', rfl, ?_, fun f _ => hperm.map _⟩
    intro k
    rw [lookup_perm hdistinct hperm k]
    exact optionRel_refl _
  | @member v w before key after hvw _ =>
    obtain rfl : before ++ (key, v) :: after = fields := Json.obj.inj ha
    refine ⟨before ++ (key, w) :: after, rfl, lookup_member before key after hvw, ?_⟩
    intro β f hf
    simp only [List.map_append, List.map_cons, hf key v w hvw]
    exact List.Perm.refl _
  | item before after _ _ => exact Json.noConfusion ha

/-- A view of values that does not look inside containers sees no reordering. -/
theorem view_eq {β : Type} (f : Json → β) (hobj : ∀ g g', f (.obj g) = f (.obj g'))
    (harr : ∀ l l', f (.arr l) = f (.arr l')) {a b : Json} (h : Reordered a b) : f a = f b := by
  induction h with
  | refl j => rfl
  | trans _ _ ihab ihbc => exact ihab.trans ihbc
  | order _ _ => exact hobj _ _
  | member _ _ _ _ _ => exact hobj _ _
  | item _ _ _ _ => exact harr _ _

theorem asStr_eq {a b : Json} (h : Reordered a b) : a.asStr = b.asStr :=
  view_eq Json.asStr (fun _ _ => rfl) (fun _ _ => rfl) h

theorem asU64_eq {a b : Json} (h : Reordered a b) : a.asU64 = b.asU64 :=
  view_eq Json.asU64 (fun _ _ => rfl) (fun _ _ => rfl) h

/-- Only a container changes by a reordering of its contents. -/
theorem eq_str {s : String} {b : Json} (h : Reordered (.str s) b) : b = .str s := by
  have hview := asStr_eq h
  cases b <;> simp_all [Json.asStr]

/-- A reordered list keeps the strings in it. -/
theorem of_arr {a b : Json} (h : Reordered a b) (items : List Json) (ha : a = .arr items) :
    ∃ items', b = .arr items' ∧ ∀ s, .str s ∈ items → .str s ∈ items' := by
  induction h generalizing items with
  | refl j => exact ⟨items, ha, fun _ hs => hs⟩
  | trans _ _ ihab ihbc =>
    obtain ⟨items₁, hb, h₁⟩ := ihab items ha
    obtain ⟨items₂, hc, h₂⟩ := ihbc items₁ hb
    exact ⟨items₂, hc, fun s hs => h₂ s (h₁ s hs)⟩
  | order _ _ => exact Json.noConfusion ha
  | member _ _ _ _ _ => exact Json.noConfusion ha
  | @item v w before after hvw _ =>
    obtain rfl : before ++ v :: after = items := Json.arr.inj ha
    refine ⟨before ++ w :: after, rfl, ?_⟩
    intro s hs
    rcases List.mem_append.mp hs with hbefore | hrest
    · exact List.mem_append_left _ hbefore
    · rcases List.mem_cons.mp hrest with rfl | hafter
      · rw [eq_str hvw]
        exact List.mem_append_right _ List.mem_cons_self
      · exact List.mem_append_right _ (List.mem_cons_of_mem _ hafter)

theorem get {a b : Json} (h : Reordered a b) (key : String) :
    Option.Rel Reordered (a.get key) (b.get key) := by
  cases a with
  | obj fields =>
    obtain ⟨fields', rfl, hlookup, _⟩ := of_obj h fields rfl
    exact hlookup key
  | _ =>
    have hnone : b.get key = none := by
      have hview := view_eq (fun j => match j with | .obj _ => true | _ => false)
        (fun _ _ => rfl) (fun _ _ => rfl) h
      cases b <;> simp_all [Json.get]
    rw [hnone]
    exact Option.Rel.none

theorem get_eq_some {a b v : Json} {key : String} (h : Reordered a b) (ha : a.get key = some v) :
    ∃ w, b.get key = some w ∧ Reordered v w := by
  have hrel := h.get key
  rw [ha] at hrel
  generalize b.get key = bw at hrel
  cases hrel with
  | some hvalue => exact ⟨_, rfl, hvalue⟩

theorem get_eq_none {a b : Json} {key : String} (h : Reordered a b) (ha : a.get key = none) :
    b.get key = none := by
  have hrel := h.get key
  rw [ha] at hrel
  generalize b.get key = bw at hrel
  cases hrel with
  | none => rfl

/-- A member seen through a view that sees no reordering. -/
theorem get_bind {β : Type} {a b : Json} (h : Reordered a b) (key : String)
    (view : Json → Option β) (hview : ∀ v w, Reordered v w → view v = view w) :
    (a.get key).bind view = (b.get key).bind view := by
  have hrel := h.get key
  generalize a.get key = v at hrel ⊢
  generalize b.get key = w at hrel ⊢
  cases hrel with
  | none => rfl
  | some hvalue => exact hview _ _ hvalue

end Reordered

end SqlServerMcp.JsonValue
