import SqlServerMcp.JsonValue
import SqlServerMcp.Text

/-!
What a JSON Schema demands of a value, for the keywords `$ref` into the schema's
own definitions, `type`, `required`, `properties` and `items`. Other keywords
are annotations and demand nothing.
-/
namespace SqlServerMcp.JsonSchema

open AssocMap FixedWidth JsonValue Text

/-- An integer may be written as a number without a fraction. -/
def hasType (name : String) (value : Json) : Bool :=
  match name, value with
  | "object", .obj _ => true
  | "array", .arr _ => true
  | "string", .str _ => true
  | "boolean", .bool _ => true
  | "null", .null => true
  | "number", .num _ => true
  | "integer", .num (.int _) => true
  | "integer", .num (.float bits) => (Float.ofBits bits).floor == Float.ofBits bits
  | _, _ => false

/-- The definition of the root schema that a reference points to. -/
def resolve (root : Json) (reference : String) : Option Json :=
  (stripPrefix "#/$defs/" reference).bind fun name =>
    (root.get "$defs").bind fun defs => defs.get name

/-- The value meets the schema, whose references point into the root schema. -/
inductive Valid (root : Json) : Json → Json → Prop
  | keywords {schema : Fields} {value : Json}
      (ref : ∀ reference target, schema.lookup "$ref" = some (.str reference) →
        resolve root reference = some target → Valid root target value)
      (type : ∀ name, schema.lookup "type" = some (.str name) → hasType name value = true)
      (required : ∀ names fields name, schema.lookup "required" = some (.arr names) →
        value = .obj fields → .str name ∈ names → name ∈ keys fields)
      (properties : ∀ props fields key property member,
        schema.lookup "properties" = some (.obj props) → value = .obj fields →
        props.lookup key = some property → fields.lookup key = some member →
        Valid root property member)
      (items : ∀ itemSchema elements element, schema.lookup "items" = some itemSchema →
        value = .arr elements → element ∈ elements → Valid root itemSchema element) :
      Valid root (.obj schema) value
  | anything (value : Json) : Valid root (.bool true) value

namespace Valid

variable {root schema value : Json}

theorem of_ref (h : Valid root schema value) {reference : String} {target : Json}
    (href : schema.get "$ref" = some (.str reference))
    (htarget : resolve root reference = some target) : Valid root target value := by
  cases h with
  | keywords ref _ _ _ _ => exact ref reference target href htarget
  | anything => cases href

theorem hasType_of (h : Valid root schema value) {name : String}
    (htype : schema.get "type" = some (.str name)) : hasType name value = true := by
  cases h with
  | keywords _ type _ _ _ => exact type name htype
  | anything => cases htype

theorem mem_of_required (h : Valid root schema value) {names : List Json} {name : String}
    {fields : Fields} (hrequired : schema.get "required" = some (.arr names))
    (hvalue : value = .obj fields) (hname : .str name ∈ names) : name ∈ keys fields := by
  cases h with
  | keywords _ _ required _ _ => exact required names fields name hrequired hvalue hname
  | anything => cases hrequired

theorem of_property (h : Valid root schema value) {props property member : Json}
    {fields : Fields} {key : String} (hprops : schema.get "properties" = some props)
    (hproperty : props.get key = some property) (hvalue : value = .obj fields)
    (hmember : fields.lookup key = some member) : Valid root property member := by
  obtain ⟨entries, rfl, hentries⟩ := (Json.get_eq_some_iff _ _ _).mp hproperty
  cases h with
  | keywords _ _ _ properties _ =>
    exact properties entries fields key property member hprops hvalue hentries hmember
  | anything => cases hprops

/-- An object without members meets an object schema that requires none. -/
theorem of_empty {keywords : Fields} (href : keywords.lookup "$ref" = none)
    (htype : keywords.lookup "type" = some (.str "object"))
    (hrequired : keywords.lookup "required" = none) : Valid root (.obj keywords) (.obj []) := by
  refine .keywords ?_ ?_ ?_ ?_ ?_
  · intro reference target h
    rw [href] at h
    contradiction
  · intro name h
    rw [htype] at h
    obtain rfl := Json.str.inj (Option.some.inj h)
    rfl
  · intro names fields name h
    rw [hrequired] at h
    contradiction
  · intro props fields key property member _ hvalue _ hmember
    obtain rfl := Json.obj.inj hvalue
    contradiction
  · intro itemSchema elements element _ hvalue
    contradiction

/-- An object with one member meets an object schema that requires none when the
member meets its property, if it has one. -/
theorem of_singleton {keywords : Fields} {key : String} {member : Json}
    (href : keywords.lookup "$ref" = none)
    (htype : keywords.lookup "type" = some (.str "object"))
    (hrequired : keywords.lookup "required" = none)
    (hmember : ∀ props property, keywords.lookup "properties" = some (.obj props) →
      props.lookup key = some property → Valid root property member) :
    Valid root (.obj keywords) (.obj [(key, member)]) := by
  refine .keywords ?_ ?_ ?_ ?_ ?_
  · intro reference target h
    rw [href] at h
    contradiction
  · intro name h
    rw [htype] at h
    obtain rfl := Json.str.inj (Option.some.inj h)
    rfl
  · intro names fields name h
    rw [hrequired] at h
    contradiction
  · intro props fields key' property member' hprops hvalue hproperty hmember'
    obtain rfl := Json.obj.inj hvalue
    rw [lookup_cons] at hmember'
    by_cases hkey : key' = key
    · rw [if_pos hkey] at hmember'
      obtain rfl := Option.some.inj hmember'
      exact hmember props property hprops (hkey ▸ hproperty)
    · rw [if_neg hkey] at hmember'
      contradiction
  · intro itemSchema elements element _ hvalue
    contradiction

/-! Schemas without references, read off their keywords. -/

theorem of_items {elements : List Json} (h : Valid root schema (.arr elements))
    {itemSchema element : Json} (hitems : schema.get "items" = some itemSchema)
    (helement : element ∈ elements) : Valid root itemSchema element := by
  cases h with
  | keywords _ _ _ _ items => exact items itemSchema elements element hitems rfl helement
  | anything => cases hitems

/-- Without a reference it is the type and what the schema says of the parts. -/
theorem of_typed (href : schema.get "$ref" = none) {name : String}
    (htype : schema.get "type" = some (.str name)) (h : hasType name value = true)
    (required : ∀ names fields name, schema.get "required" = some (.arr names) →
      value = .obj fields → .str name ∈ names → name ∈ keys fields)
    (properties : ∀ props fields key property member, schema.get "properties" = some props →
      value = .obj fields → props.get key = some property → fields.lookup key = some member →
        Valid root property member)
    (items : ∀ itemSchema elements element, schema.get "items" = some itemSchema →
      value = .arr elements → element ∈ elements → Valid root itemSchema element) :
    Valid root schema value := by
  obtain ⟨keywords, rfl, hname⟩ := (Json.get_eq_some_iff _ _ _).mp htype
  refine .keywords ?_ ?_ required
    (fun props fields key property member => properties (.obj props) fields key property member)
    items
  · intro reference target href'
    rw [← Json.get_obj, href] at href'
    contradiction
  · intro name' hname'
    exact Json.str.inj (Option.some.inj (hname.symm.trans hname')) ▸ h

/-- Of a value without parts a schema demands its type alone. -/
theorem scalar_iff (href : schema.get "$ref" = none) {name : String}
    (htype : schema.get "type" = some (.str name)) (hobj : ∀ fields, value ≠ .obj fields)
    (harr : ∀ elements, value ≠ .arr elements) :
    Valid root schema value ↔ hasType name value = true := by
  refine ⟨fun h => h.hasType_of htype, fun h => of_typed href htype h ?_ ?_ ?_⟩
  · exact fun _ fields _ _ hvalue => absurd hvalue (hobj fields)
  · exact fun _ fields _ _ _ _ hvalue => absurd hvalue (hobj fields)
  · exact fun _ elements _ _ hvalue => absurd hvalue (harr elements)

theorem items_iff (href : schema.get "$ref" = none)
    (htype : schema.get "type" = some (.str "array")) {itemSchema : Json}
    (hitems : schema.get "items" = some itemSchema) (elements : List Json) :
    Valid root schema (.arr elements) ↔ ∀ element ∈ elements, Valid root itemSchema element := by
  refine ⟨fun h element => h.of_items hitems, fun h => of_typed href htype rfl nofun nofun ?_⟩
  intro itemSchema' elements' element hitems' hvalue helement
  obtain rfl := Option.some.inj (hitems.symm.trans hitems')
  obtain rfl := Json.arr.inj hvalue
  exact h element helement

theorem members_iff (href : schema.get "$ref" = none)
    (htype : schema.get "type" = some (.str "object"))
    (hrequired : schema.get "required" = none) {props : Json}
    (hprops : schema.get "properties" = some props) (fields : Fields) :
    Valid root schema (.obj fields) ↔ ∀ key property member, props.get key = some property →
      fields.lookup key = some member → Valid root property member := by
  refine ⟨fun h _ _ _ hproperty hmember => h.of_property hprops hproperty rfl hmember,
    fun h => of_typed href htype rfl ?_ ?_ nofun⟩
  · intro names fields' name hrequired'
    rw [hrequired] at hrequired'
    contradiction
  · intro props' fields' key property member hprops' hvalue hproperty hmember
    obtain rfl := Option.some.inj (hprops.symm.trans hprops')
    obtain rfl := Json.obj.inj hvalue
    exact h key property member hproperty hmember

end Valid

/-- The only values of type object are objects. -/
theorem exists_obj_of_hasType {value : Json} (h : hasType "object" value = true) :
    ∃ fields, value = .obj fields := by
  cases value with
  | obj fields => exact ⟨fields, rfl⟩
  | null | bool | num | str | arr => simp [hasType] at h

end SqlServerMcp.JsonSchema
