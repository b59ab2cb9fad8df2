-- What a schema means. Its record model and its types are read off its members by rules, and a
-- reference means what stands for it, whichever way that is looked up. A schema means one record model
-- at most, and where it means one, so does everything that it reaches.
import Mathlib.Logic.Relation
import Formwork.Proofs.Types.Conforming
import Formwork.Proofs.Types.References

namespace Formwork

namespace Schema

open Relation

/-! ## Meaning -/

/-- Finds what stands for a reference: the name of a definition, and its schema. -/
abbrev Lookup := String → Option (String × Json)

section Rules

variable (lookup : Lookup)

mutual

/-- The record model that a schema means. -/
inductive HasModel : Option String → Json → RecordModel → Prop where
  | intro {fallback : Option String} {schema : Json} {name : String} {properties : Ordered Json}
    {fields : List ModelField} : (text? schema "title").or fallback = some name →
    object? schema "properties" = some properties →
    HasFields (requiredNames schema) properties fields →
    HasModel fallback schema ⟨name, .schema, fields⟩

/-- The fields that properties mean. -/
inductive HasFields : List String → List (String × Json) → List ModelField → Prop where
  | nil {required : List String} : HasFields required [] []
  | cons {required : List String} {name : String} {schema : Json} {declared : DeclaredType}
    {rest : List (String × Json)} {fields : List ModelField} : HasType name schema declared →
    HasFields required rest fields →
    HasFields required ((name, schema) :: rest) (fieldOf required name schema declared :: fields)

/-- The type that a schema means. -/
inductive HasType : String → Json → DeclaredType → Prop where
  | intro {property : String} {schema : Json} {form : Form} {declared : DeclaredType} :
    form? schema = some form → HasForm property schema form declared →
    HasType property schema declared

/-- The type that a schema of a form means. A reference means the record model of what stands for
it. -/
inductive HasForm : String → Json → Form → DeclaredType → Prop where
  | reference {property : String} {schema target : Json} {reference name : String}
    {model : RecordModel} : lookup reference = some (name, target) →
    HasModel (some name) target model → HasForm property schema (.reference reference) (.model model)
  | variants {property : String} {schema : Json} {variants : List Json}
    {declareds : List DeclaredType} : HasVariants property variants declareds →
    HasForm property schema (.variants variants) (oneOf declareds)
  | named {property type : String} {schema : Json} {declared : DeclaredType} :
    HasNamed property schema type declared →
    HasForm property schema (.named type) (nullable schema declared)
  | listed {property : String} {schema : Json} {types : List Json} {declareds : List DeclaredType} :
    HasNames property schema types declareds →
    HasForm property schema (.listed types) (nullable schema (oneOf declareds))
  | untyped {property : String} {schema : Json} {model : RecordModel} :
    HasModel (some property) schema model →
    HasForm property schema .untyped (nullable schema (.model model))

/-- The types that variants mean. -/
inductive HasVariants : String → List Json → List DeclaredType → Prop where
  | nil {property : String} : HasVariants property [] []
  | cons {property : String} {variant : Json} {declared : DeclaredType} {rest : List Json}
    {declareds : List DeclaredType} : HasType property variant declared →
    HasVariants property rest declareds →
    HasVariants property (variant :: rest) (declared :: declareds)

/-- The type that a name gives a schema. -/
inductive HasNamed : String → Json → String → DeclaredType → Prop where
  | leaf {property type : String} {schema : Json} {reading : Reading DeclaredType}
    {declared : DeclaredType} : leaf? schema property type = some reading →
    Attempt.ofReading reading = pure declared → HasNamed property schema type declared
  | array {property : String} {schema items : Json} {declared : DeclaredType} :
    schema.get? "items" = some items → HasType property items declared →
    HasNamed property schema "array" (.list declared)
  | object {property : String} {schema : Json} {model : RecordModel} :
    HasModel (some property) schema model → HasNamed property schema "object" (.model model)

/-- The types that a list of names gives a schema. -/
inductive HasNames : String → Json → List Json → List DeclaredType → Prop where
  | nil {property : String} {schema : Json} : HasNames property schema [] []
  | cons {property type : String} {schema : Json} {declared : DeclaredType} {rest : List Json}
    {declareds : List DeclaredType} : HasNamed property schema type declared →
    HasNames property schema rest declareds →
    HasNames property schema (.text type :: rest) (declared :: declareds)

end

end Rules

section Unique

variable {lookup : Lookup} {property : String} {schema : Json}

theorem hasNamed_array {declared : DeclaredType}
    (h : HasNamed lookup property schema "array" declared) :
    ∃ items item, schema.get? "items" = some items ∧ HasType lookup property items item ∧
      declared = .list item := by
  generalize htype : "array" = type at h
  cases h with
  | leaf hleaf =>
    subst htype
    cases hleaf
  | array hitems hitem => exact ⟨_, _, hitems, hitem, rfl⟩
  | object => exact absurd htype (by decide)

theorem hasNamed_object {declared : DeclaredType}
    (h : HasNamed lookup property schema "object" declared) :
    ∃ model, HasModel lookup (some property) schema model ∧ declared = .model model := by
  generalize htype : "object" = type at h
  cases h with
  | leaf hleaf =>
    subst htype
    cases hleaf
  | array => exact absurd htype (by decide)
  | object hmodel => exact ⟨_, hmodel, rfl⟩

theorem hasNamed_leaf {type : String} {reading : Reading DeclaredType} {declared : DeclaredType}
    (hleaf : leaf? schema property type = some reading)
    (h : HasNamed lookup property schema type declared) :
    Attempt.ofReading reading = pure declared := by
  cases h with
  | leaf hleaf' h =>
    obtain rfl := Option.some.inj (hleaf.symm.trans hleaf')
    exact h
  | array => cases hleaf
  | object => cases hleaf

mutual

/-- A schema means one record model at most. -/
theorem HasModel.unique {fallback : Option String} {schema : Json} {model model' : RecordModel} :
    HasModel lookup fallback schema model → HasModel lookup fallback schema model' → model = model'
  | .intro hname hproperties hfields, .intro hname' hproperties' hfields' => by
    obtain rfl := Option.some.inj (hname.symm.trans hname')
    obtain rfl := Option.some.inj (hproperties.symm.trans hproperties')
    rw [hfields.unique hfields']
termination_by structural h => h

/-- Properties mean one list of fields at most. -/
theorem HasFields.unique {required : List String} {properties : List (String × Json)}
    {fields fields' : List ModelField} : HasFields lookup required properties fields →
    HasFields lookup required properties fields' → fields = fields'
  | .nil, .nil => rfl
  | .cons htype hrest, .cons htype' hrest' => by
    rw [htype.unique htype', hrest.unique hrest']
termination_by structural h => h

/-- A schema means one type at most. -/
theorem HasType.unique {property : String} {schema : Json} {declared declared' : DeclaredType} :
    HasType lookup property schema declared → HasType lookup property schema declared' →
    declared = declared'
  | .intro hform h, .intro hform' h' => by
    obtain rfl := Option.some.inj (hform.symm.trans hform')
    exact h.unique h'
termination_by structural h => h

/-- A schema of a form means one type at most. -/
theorem HasForm.unique {property : String} {schema : Json} {form : Form}
    {declared declared' : DeclaredType} : HasForm lookup property schema form declared →
    HasForm lookup property schema form declared' → declared = declared'
  | .reference hlookup hmodel, .reference hlookup' hmodel' => by
    cases hlookup.symm.trans hlookup'
    rw [hmodel.unique hmodel']
  | .variants h, .variants h' => by rw [h.unique h']
  | .named h, .named h' => by rw [h.unique h']
  | .listed h, .listed h' => by rw [h.unique h']
  | .untyped h, .untyped h' => by rw [h.unique h']
termination_by structural h => h

/-- Variants mean one list of types at most. -/
theorem HasVariants.unique {property : String} {variants : List Json}
    {declareds declareds' : List DeclaredType} : HasVariants lookup property variants declareds →
    HasVariants lookup property variants declareds' → declareds = declareds'
  | .nil, .nil => rfl
  | .cons htype hrest, .cons htype' hrest' => by
    rw [htype.unique htype', hrest.unique hrest']
termination_by structural h => h

/-- A name gives a schema one type at most. -/
theorem HasNamed.unique {property type : String} {schema : Json}
    {declared declared' : DeclaredType} : HasNamed lookup property schema type declared →
    HasNamed lookup property schema type declared' → declared = declared'
  | .leaf hleaf h, h' => by
    cases h.symm.trans (hasNamed_leaf hleaf h')
    rfl
  -- Names are texts, which cases can not tell apart: the second rule is found by inversion.
  | .array hitems h, h' => by
    obtain ⟨items', item', hitems', hitem', rfl⟩ := hasNamed_array h'
    obtain rfl := Option.some.inj (hitems.symm.trans hitems')
    rw [h.unique hitem']
  | .object h, h' => by
    obtain ⟨model', hmodel', rfl⟩ := hasNamed_object h'
    rw [h.unique hmodel']
termination_by structural h => h

/-- A list of names gives a schema one list of types at most. -/
theorem HasNames.unique {property : String} {schema : Json} {types : List Json}
    {declareds declareds' : List DeclaredType} : HasNames lookup property schema types declareds →
    HasNames lookup property schema types declareds' → declareds = declareds'
  | .nil, .nil => rfl
  | .cons htype hrest, .cons htype' hrest' => by
    rw [htype.unique htype', hrest.unique hrest']
termination_by structural h => h

end

end Unique

/-! ## Places -/

/-- What the meaning of a document is made of: the record model of a schema, its type, and the type
that a name gives it. -/
inductive Place where
  | model (schema : Json)
  | type (schema : Json)
  | named (schema : Json) (type : String)

/-- The meaning of one place is read off that of another: of a property, a variant or the items, of
what stands for a reference, or of the same schema. -/
inductive LeadsTo (lookup : Lookup) : Place → Place → Prop where
  | property {schema : Json} {properties : Ordered Json} {property : String × Json} :
    object? schema "properties" = some properties → property ∈ properties →
    LeadsTo lookup (.model schema) (.type property.2)
  | reference {schema target : Json} {reference name : String} :
    form? schema = some (.reference reference) → lookup reference = some (name, target) →
    LeadsTo lookup (.type schema) (.model target)
  | variant {schema variant : Json} {variants : List Json} :
    form? schema = some (.variants variants) → variant ∈ variants →
    LeadsTo lookup (.type schema) (.type variant)
  | named {schema : Json} {type : String} : form? schema = some (.named type) →
    LeadsTo lookup (.type schema) (.named schema type)
  | listed {schema : Json} {types : List Json} {type : String} :
    form? schema = some (.listed types) → .text type ∈ types →
    LeadsTo lookup (.type schema) (.named schema type)
  | untyped {schema : Json} : form? schema = some .untyped →
    LeadsTo lookup (.type schema) (.model schema)
  | items {schema items : Json} : schema.get? "items" = some items →
    LeadsTo lookup (.named schema "array") (.type items)
  | object {schema : Json} : LeadsTo lookup (.named schema "object") (.model schema)

/-- The type of the schema is among what the meaning of a place is made of. -/
def Reaches (lookup : Lookup) (place : Place) (schema : Json) : Prop :=
  ReflTransGen (LeadsTo lookup) place (.type schema)

section Places

variable {lookup : Lookup} {place next : Place} {schema : Json}

theorem LeadsTo.reaches (h : LeadsTo lookup place next) (hnext : Reaches lookup next schema) :
    Reaches lookup place schema :=
  .head h hnext

/-- Something is what the place means. -/
def Place.Means (lookup : Lookup) : Place → Prop
  | .model schema => ∃ fallback model, HasModel lookup fallback schema model
  | .type schema => ∃ property declared, HasType lookup property schema declared
  | .named schema name => ∃ property declared, HasNamed lookup property schema name declared

theorem HasFields.mem {required : List String} {properties : List (String × Json)}
    {fields : List ModelField} (h : HasFields lookup required properties fields)
    {property : String × Json} (hmem : property ∈ properties) :
    ∃ declared, HasType lookup property.1 property.2 declared ∧
      fieldOf required property.1 property.2 declared ∈ fields := by
  induction properties generalizing fields with
  | nil => cases hmem
  | cons _ rest ih =>
    obtain _ | ⟨htype, hrest⟩ := h
    rcases List.mem_cons.1 hmem with rfl | hmem
    · exact ⟨_, htype, List.mem_cons_self⟩
    · obtain ⟨declared, htype, hfield⟩ := ih hrest hmem
      exact ⟨declared, htype, List.mem_cons_of_mem _ hfield⟩

theorem HasVariants.mem {property : String} {variants : List Json} {declareds : List DeclaredType}
    (h : HasVariants lookup property variants declareds) {variant : Json}
    (hmem : variant ∈ variants) :
    ∃ declared ∈ declareds, HasType lookup property variant declared := by
  induction variants generalizing declareds with
  | nil => cases hmem
  | cons _ rest ih =>
    obtain _ | ⟨htype, hrest⟩ := h
    rcases List.mem_cons.1 hmem with rfl | hmem
    · exact ⟨_, List.mem_cons_self, htype⟩
    · obtain ⟨declared, hdeclared, htype⟩ := ih hrest hmem
      exact ⟨declared, List.mem_cons_of_mem _ hdeclared, htype⟩

theorem HasNames.mem {property : String} {types : List Json} {declareds : List DeclaredType}
    (h : HasNames lookup property schema types declareds) {type : String}
    (hmem : .text type ∈ types) :
    ∃ declared ∈ declareds, HasNamed lookup property schema type declared := by
  induction types generalizing declareds with
  | nil => cases hmem
  | cons _ rest ih =>
    obtain _ | ⟨hnamed, hrest⟩ := h
    rcases List.mem_cons.1 hmem with heq | hmem
    · cases heq
      exact ⟨_, List.mem_cons_self, hnamed⟩
    · obtain ⟨declared, hdeclared, hnamed⟩ := ih hrest hmem
      exact ⟨declared, List.mem_cons_of_mem _ hdeclared, hnamed⟩

theorem HasType.form {property : String} {declared : DeclaredType} {form : Form}
    (h : HasType lookup property schema declared) (hform : form? schema = some form) :
    HasForm lookup property schema form declared := by
  obtain ⟨hform', h⟩ := h
  obtain rfl := Option.some.inj (hform.symm.trans hform')
  exact h

/-! What makes a type of others out of the types of its parts reaches what these reach, and nothing
else. -/

theorem reaches_optional_iff {inner : DeclaredType} {r : RecordModel} :
    Formwork.Reaches inner.optional r ↔ Formwork.Reaches inner r := by
  refine ⟨fun h => ?_, .union List.mem_cons_self⟩
  obtain _ | _ | _ | ⟨hmem, hr⟩ := h
  rcases List.mem_cons.1 hmem with rfl | hlast
  · exact hr
  · rw [List.mem_singleton.1 hlast] at hr
    cases hr

theorem reaches_oneOf_iff {declareds : List DeclaredType} {r : RecordModel} :
    Formwork.Reaches (oneOf declareds) r ↔
      ∃ declared ∈ declareds, Formwork.Reaches declared r := by
  unfold oneOf
  split
  · simp
  · refine ⟨fun h => ?_, fun ⟨declared, hmem, hr⟩ => .union hmem hr⟩
    obtain _ | _ | _ | ⟨hmem, hr⟩ := h
    exact ⟨_, hmem, hr⟩

theorem reaches_nullable_iff {declared : DeclaredType} {r : RecordModel} :
    Formwork.Reaches (nullable schema declared) r ↔ Formwork.Reaches declared r := by
  unfold nullable
  split
  · exact reaches_optional_iff
  · rfl

theorem reaches_fieldOf_iff {required : List String} {name : String} {declared : DeclaredType}
    {r : RecordModel} : Formwork.Reaches (fieldOf required name schema declared).declared r ↔
      Formwork.Reaches declared r := by
  unfold fieldOf
  dsimp only
  split
  · exact reaches_optional_iff
  · rfl

/-- A type that the place means. -/
def Place.Denotes (lookup : Lookup) : Place → DeclaredType → Prop
  | .model schema, declared => ∃ fallback model,
    HasModel lookup fallback schema model ∧ declared = .model model
  | .type schema, declared => ∃ property, HasType lookup property schema declared
  | .named schema name, declared => ∃ property, HasNamed lookup property schema name declared

theorem Place.means_iff : place.Means lookup ↔ ∃ declared, place.Denotes lookup declared := by
  cases place with
  | model schema =>
    exact ⟨fun ⟨fallback, inner, h⟩ => ⟨_, fallback, inner, h, rfl⟩,
      fun ⟨_, fallback, inner, h, _⟩ => ⟨fallback, inner, h⟩⟩
  | type schema => exact exists_comm
  | named schema name => exact exists_comm

/-- What a place with a meaning leads to has one, and it reaches nothing new. -/
theorem LeadsTo.denotes {declared : DeclaredType} (h : LeadsTo lookup place next)
    (hplace : place.Denotes lookup declared) : ∃ part, next.Denotes lookup part ∧
      ∀ r, Formwork.Reaches part r → Formwork.Reaches declared r := by
  cases h with
  | property hproperties hmem =>
    obtain ⟨_, _, ⟨_, hproperties', hfields⟩, rfl⟩ := hplace
    obtain rfl := Option.some.inj (hproperties.symm.trans hproperties')
    obtain ⟨part, htype, hfield⟩ := hfields.mem hmem
    exact ⟨part, ⟨_, htype⟩, fun r hr => .field hfield (reaches_fieldOf_iff.2 hr)⟩
  | items hitems =>
    obtain ⟨property, hnamed⟩ := hplace
    obtain ⟨_, item, hitems', hitem, rfl⟩ := hasNamed_array hnamed
    obtain rfl := Option.some.inj (hitems.symm.trans hitems')
    exact ⟨item, ⟨property, hitem⟩, fun r => .list⟩
  | object =>
    obtain ⟨_, hnamed⟩ := hplace
    obtain ⟨model, hmodel, rfl⟩ := hasNamed_object hnamed
    exact ⟨_, ⟨_, model, hmodel, rfl⟩, fun r hr => hr⟩
  | reference hform hlookup =>
    obtain ⟨_, htype⟩ := hplace
    obtain ⟨hlookup', hmodel⟩ := htype.form hform
    cases hlookup.symm.trans hlookup'
    exact ⟨_, ⟨_, _, hmodel, rfl⟩, fun r hr => hr⟩
  | variant hform hmem =>
    obtain ⟨_, htype⟩ := hplace
    obtain _ | hvariants := htype.form hform
    obtain ⟨part, hpart, htype⟩ := hvariants.mem hmem
    exact ⟨part, ⟨_, htype⟩, fun r hr => reaches_oneOf_iff.2 ⟨part, hpart, hr⟩⟩
  | named hform =>
    obtain ⟨_, htype⟩ := hplace
    obtain _ | _ | hnamed := htype.form hform
    exact ⟨_, ⟨_, hnamed⟩, fun r => reaches_nullable_iff.2⟩
  | listed hform hmem =>
    obtain ⟨_, htype⟩ := hplace
    obtain _ | _ | _ | hnames := htype.form hform
    obtain ⟨part, hpart, hnamed⟩ := hnames.mem hmem
    exact ⟨part, ⟨_, hnamed⟩,
      fun r hr => reaches_nullable_iff.2 (reaches_oneOf_iff.2 ⟨part, hpart, hr⟩)⟩
  | untyped hform =>
    obtain ⟨_, htype⟩ := hplace
    obtain _ | _ | _ | _ | hmodel := htype.form hform
    exact ⟨_, ⟨_, _, hmodel, rfl⟩, fun r => reaches_nullable_iff.2⟩

/-- What a place with a meaning leads to has one. -/
theorem LeadsTo.means (h : LeadsTo lookup place next) (hplace : place.Means lookup) :
    next.Means lookup := by
  obtain ⟨_, hdeclared⟩ := Place.means_iff.1 hplace
  obtain ⟨part, hpart, _⟩ := h.denotes hdeclared
  exact Place.means_iff.2 ⟨part, hpart⟩

/-- Every type that a place with a meaning reaches has one. -/
theorem Reaches.means (h : Reaches lookup place schema) (hplace : place.Means lookup) :
    ∃ property declared, HasType lookup property schema declared := by
  have hmeans : ∀ {last : Place}, ReflTransGen (LeadsTo lookup) place last → last.Means lookup := by
    intro last hpath
    induction hpath with
    | refl => exact hplace
    | tail _ hlast ih => exact hlast.means ih
  exact hmeans h

end Places

end Schema

end Formwork
