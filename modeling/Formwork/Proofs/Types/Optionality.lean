-- When the fields of a schema are optional. A field is optional if its property need not be there, or
-- if null is read off the schema of the property. Null can be said by the schema itself or by one of
-- its variants. It is read in one place only: a reference hides whatever is said beside it, and
-- variants hide what the schema itself says, and other variants.
import Mathlib.Data.List.Forall2
import Formwork.Proofs.Types.Sections

namespace Formwork

/-! ## Types with an absent marker -/

namespace DeclaredType

/-- The type is the absent marker or a union with the marker somewhere in it. -/
inductive HoldsAbsent : DeclaredType → Prop where
  | absent : HoldsAbsent .absent
  | union {members : List DeclaredType} {member : DeclaredType} :
    member ∈ members → HoldsAbsent member → HoldsAbsent (.union members)

variable {a : DeclaredType}

theorem not_holdsAbsent_plain {p : PlainType} : ¬ HoldsAbsent (.plain p) := nofun

theorem not_holdsAbsent_list {item : DeclaredType} : ¬ HoldsAbsent (.list item) := nofun

theorem holdsAbsent_of_isOptional (h : a.isOptional = true) : a.HoldsAbsent := by
  cases a with
  | union members =>
    obtain ⟨member, hmem, habsent⟩ := List.any_eq_true.1 h
    cases member with
    | absent => exact .union hmem .absent
    | _ => cases habsent
  | _ => cases h

theorem withoutAbsent_snd (a : DeclaredType) : a.withoutAbsent.2 = a.isOptional := by
  cases a with
  | union members =>
    simp only [withoutAbsent, isOptional]
    split
    · rename_i hany
      rw [hany]
      split <;> rfl
    · rename_i hany
      exact (Bool.not_eq_true _ ▸ hany : members.any isAbsent = false).symm
  | _ => rfl

theorem isOptional_of_describe {origin : Origin} {d : Descriptor} (h : a.describe origin = .ok d) :
    d.isOptional = a.isOptional := by
  rw [← withoutAbsent_snd]
  unfold describe at h
  simp only at h
  split at h <;> cases h
  rfl

/-- Where a type has a shape, no marker is out of sight: the shape is optional if there is one. -/
theorem isOptional_iff_of_describe {origin : Origin} {d : Descriptor}
    (h : a.describe origin = .ok d) : d.isOptional = true ↔ a.HoldsAbsent := by
  rw [isOptional_of_describe h]
  refine ⟨holdsAbsent_of_isOptional, fun hholds => ?_⟩
  cases hholds with
  | absent => cases h
  | @union members =>
    by_cases hany : members.any isAbsent = true
    · exact hany
    · simp only [describe, withoutAbsent, hany, withoutList] at h
      cases h

end DeclaredType

namespace Schema

open Relation DeclaredType

/-! ## Null -/

/-- The schema itself says that null is allowed: by a keyword, or by the name of a type. -/
def SaysNull (schema : Json) : Prop :=
  (schema.get? "nullable").bind Json.bool? = some true ∨ "null" ∈ typeNames schema

/-- Null is allowed by the schema itself, or by one of the variants that it lists. -/
inductive AdmitsNull : Json → Prop where
  | said {schema : Json} : SaysNull schema → AdmitsNull schema
  | variant {schema variant : Json} {key : String} {variants : List Json} :
    key = "anyOf" ∨ key = "oneOf" → array? schema key = some variants → variant ∈ variants →
    AdmitsNull variant → AdmitsNull schema

/-- Null is allowed where it is looked for: by the variants if there are any, and else by the schema
itself, and not at all beside a reference. -/
inductive ReadsNull : Json → Prop where
  | said {schema : Json} : text? schema "$ref" = none → variants? schema = none → SaysNull schema →
    ReadsNull schema
  | variant {schema variant : Json} {variants : List Json} : text? schema "$ref" = none →
    variants? schema = some variants → variant ∈ variants → ReadsNull variant → ReadsNull schema

/-- Null is allowed where it is not looked for: beside a reference, beside variants, by variants
beside others, or out of sight in a variant. -/
inductive HidesNull : Json → Prop where
  | besideReference {schema : Json} {reference : String} : text? schema "$ref" = some reference →
    AdmitsNull schema → HidesNull schema
  | besideVariants {schema : Json} {variants : List Json} : text? schema "$ref" = none →
    variants? schema = some variants → SaysNull schema → HidesNull schema
  | otherVariant {schema variant : Json} {variants others : List Json} :
    text? schema "$ref" = none → array? schema "anyOf" = some variants →
    array? schema "oneOf" = some others → variant ∈ others → AdmitsNull variant → HidesNull schema
  | variant {schema variant : Json} {variants : List Json} : text? schema "$ref" = none →
    variants? schema = some variants → variant ∈ variants → HidesNull variant → HidesNull schema

section Null

variable {schema : Json}

theorem array?_of_variants? {variants : List Json} (h : variants? schema = some variants) :
    ∃ key, (key = "anyOf" ∨ key = "oneOf") ∧ array? schema key = some variants := by
  rcases Option.or_eq_some_iff.1 h with h | ⟨_, h⟩
  · exact ⟨_, .inl rfl, h⟩
  · exact ⟨_, .inr rfl, h⟩

/-- Variants are the ones that are read, unless they stand under "oneOf" and others under "anyOf". -/
theorem variants?_of_array? {key : String} {variants : List Json}
    (hkey : key = "anyOf" ∨ key = "oneOf") (h : array? schema key = some variants) :
    variants? schema = some variants ∨ ∃ others, array? schema "anyOf" = some others ∧ key = "oneOf" := by
  unfold variants?
  rcases hkey with rfl | rfl
  · exact .inl (by rw [h, Option.some_or])
  · rcases hanyOf : array? schema "anyOf" with _ | others
    · exact .inl h
    · exact .inr ⟨others, rfl, rfl⟩

theorem ReadsNull.admits (h : ReadsNull schema) : AdmitsNull schema := by
  induction h with
  | said _ _ hsays => exact .said hsays
  | variant _ hvariants hmem _ ih =>
    obtain ⟨key, hkey, harray⟩ := array?_of_variants? hvariants
    exact .variant hkey harray hmem ih

theorem HidesNull.admits (h : HidesNull schema) : AdmitsNull schema := by
  induction h with
  | besideReference _ hadmits => exact hadmits
  | besideVariants _ _ hsays => exact .said hsays
  | otherVariant _ _ hothers hmem hadmits => exact .variant (.inr rfl) hothers hmem hadmits
  | variant _ hvariants hmem _ ih =>
    obtain ⟨key, hkey, harray⟩ := array?_of_variants? hvariants
    exact .variant hkey harray hmem ih

/-- A schema that allows null is read so, or hides it. -/
theorem admitsNull_iff : AdmitsNull schema ↔ ReadsNull schema ∨ HidesNull schema := by
  refine ⟨fun h => ?_, fun h => h.elim ReadsNull.admits HidesNull.admits⟩
  induction h with
  | @said schema hsays =>
    rcases href : text? schema "$ref" with _ | reference
    · rcases hvariants : variants? schema with _ | variants
      · exact .inl (.said href hvariants hsays)
      · exact .inr (.besideVariants href hvariants hsays)
    · exact .inr (.besideReference href (.said hsays))
  | @variant schema variant key variants hkey harray hmem hadmits ih =>
    rcases href : text? schema "$ref" with _ | reference
    · rcases variants?_of_array? hkey harray with hvariants | ⟨others, hothers, rfl⟩
      · exact ih.imp (.variant href hvariants hmem) (.variant href hvariants hmem)
      · exact .inr (.otherVariant href hothers harray hmem hadmits)
    · exact .inr (.besideReference href (.variant hkey harray hmem hadmits))

end Null

/-! ## What is read -/

section Reading

variable {lookup : Lookup} {schema : Json} {property : String}

theorem holdsAbsent_oneOf_iff {declareds : List DeclaredType} :
    (oneOf declareds).HoldsAbsent ↔ ∃ declared ∈ declareds, declared.HoldsAbsent := by
  unfold oneOf
  split
  · simp
  · refine ⟨fun h => ?_, fun ⟨declared, hmem, h⟩ => .union hmem h⟩
    obtain _ | ⟨hmem, h⟩ := h
    exact ⟨_, hmem, h⟩

theorem holdsAbsent_optional (declared : DeclaredType) : declared.optional.HoldsAbsent :=
  .union (List.mem_cons_of_mem _ List.mem_cons_self) .absent

theorem holdsAbsent_nullable_iff {declared : DeclaredType} :
    (nullable schema declared).HoldsAbsent ↔
      (schema.get? "nullable").bind Json.bool? = some true ∨ declared.HoldsAbsent := by
  unfold nullable
  rcases (schema.get? "nullable").bind Json.bool? with _ | _ | _
  · simp
  · simp
  · refine iff_of_true ?_ (.inl rfl)
    split
    · exact holdsAbsent_optional declared
    · rename_i hoptional
      exact holdsAbsent_of_isOptional (by simpa using hoptional)

/-- The field of a property that need not be there is optional, any other one as its type is. -/
theorem holdsAbsent_fieldOf_iff {required : List String} {name : String} {declared : DeclaredType} :
    (fieldOf required name schema declared).declared.HoldsAbsent ↔
      name ∉ required ∨ declared.HoldsAbsent := by
  unfold fieldOf
  dsimp only
  by_cases hname : name ∈ required
  · simp [hname]
  · refine iff_of_true ?_ (.inl hname)
    split
    · exact holdsAbsent_optional declared
    · rename_i hoptional
      exact holdsAbsent_of_isOptional (by simpa [hname] using hoptional)

theorem enumeration_plain {valueType : ScalarType} {members : List (String × Value)}
    {declared : DeclaredType}
    (h : Prod.fst <$> (enumeration schema property valueType members).run [] = .ok declared) :
    ∃ p : PlainType, p.model? = none ∧ declared = .plain p := by
  unfold enumeration at h
  split at h <;> cases h
  exact ⟨_, rfl, rfl⟩

/-- A type that needs no other schema is plain and no record model, but for the one named "null". -/
theorem leaf_plain {type : String} {reading : Reading DeclaredType} {declared : DeclaredType}
    (hleaf : leaf? schema property type = some reading)
    (h : Prod.fst <$> reading.run [] = .ok declared) :
    if type = "null" then declared = .absent
    else ∃ p : PlainType, p.model? = none ∧ declared = .plain p := by
  unfold leaf? at hleaf
  split at hleaf <;> cases hleaf
  · rw [if_neg (by decide)]
    unfold textType at h
    split at h
    · exact enumeration_plain h
    · split at h <;> cases h <;> exact ⟨_, rfl, rfl⟩
  · rw [if_neg (by decide)]
    unfold wholeType at h
    split at h
    · exact enumeration_plain h
    · cases h
      exact ⟨_, rfl, rfl⟩
  · rw [if_neg (by decide)]
    unfold numberType at h
    split at h <;> cases h <;> exact ⟨_, rfl, rfl⟩
  · rw [if_neg (by decide)]
    cases h
    exact ⟨_, rfl, rfl⟩
  · rw [if_pos rfl]
    cases h
    rfl

/-- A type that needs no other schema reaches no record model. -/
theorem not_reaches_leaf {type : String} {reading : Reading DeclaredType} {declared : DeclaredType}
    {r : RecordModel} (hleaf : leaf? schema property type = some reading)
    (h : Attempt.ofReading reading = pure declared) : ¬ Formwork.Reaches declared r := by
  intro hr
  have hplain := leaf_plain hleaf (Option.some.inj (congrArg ExceptT.run h))
  split at hplain
  · subst hplain
    cases hr
  · obtain ⟨p, hp, rfl⟩ := hplain
    cases hr <;> cases hp

theorem holdsAbsent_named_iff {type : String} {declared : DeclaredType}
    (h : HasNamed lookup property schema type declared) :
    declared.HoldsAbsent ↔ type = "null" := by
  cases h with
  | leaf hleaf h =>
    have hplain := leaf_plain hleaf (Option.some.inj (congrArg ExceptT.run h))
    split at hplain
    · rename_i htype
      exact iff_of_true (hplain ▸ .absent) htype
    · rename_i htype
      obtain ⟨p, _, rfl⟩ := hplain
      exact iff_of_false not_holdsAbsent_plain htype
  | array => exact iff_of_false not_holdsAbsent_list (by decide)
  | object => exact iff_of_false not_holdsAbsent_plain (by decide)

theorem holdsAbsent_names_iff {types : List Json} {declareds : List DeclaredType}
    (h : HasNames lookup property schema types declareds) :
    (∃ declared ∈ declareds, declared.HoldsAbsent) ↔ "null" ∈ types.filterMap Json.text? := by
  induction types generalizing declareds with
  | nil =>
    cases h
    simp
  | cons type rest ih =>
    obtain _ | ⟨hnamed, hrest⟩ := h
    simp only [List.mem_cons, exists_eq_or_imp, ih hrest, holdsAbsent_named_iff hnamed,
      List.filterMap_cons, Json.text?, @eq_comm _ "null"]

/-- Beside a reference no null is read. -/
theorem not_readsNull_of_reference {reference : String} (href : text? schema "$ref" = some reference) :
    ¬ ReadsNull schema := by
  intro h
  cases h with
  | said hnone | variant hnone => cases hnone.symm.trans href

/-- Beside variants, null is read off them only. -/
theorem readsNull_variants_iff {variants : List Json} (href : text? schema "$ref" = none)
    (hvariants : variants? schema = some variants) :
    ReadsNull schema ↔ ∃ variant ∈ variants, ReadsNull variant := by
  refine ⟨fun h => ?_, fun ⟨_, hmem, h⟩ => .variant href hvariants hmem h⟩
  cases h with
  | said _ hnone => cases hnone.symm.trans hvariants
  | variant _ hvariants' hmem h =>
    obtain rfl := Option.some.inj (hvariants.symm.trans hvariants')
    exact ⟨_, hmem, h⟩

/-- Beside neither, null is read off the schema itself. -/
theorem readsNull_said_iff (href : text? schema "$ref" = none) (hvariants : variants? schema = none) :
    ReadsNull schema ↔ SaysNull schema := by
  refine ⟨fun h => ?_, .said href hvariants⟩
  cases h with
  | said _ _ hsays => exact hsays
  | variant _ hvariants' => cases hvariants.symm.trans hvariants'

mutual

/-- The type of a schema holds the absent marker if null is read off the schema. -/
theorem HasType.holdsAbsent_iff {property : String} {schema : Json} {declared : DeclaredType} :
    HasType lookup property schema declared → (declared.HoldsAbsent ↔ ReadsNull schema)
  | .intro hform (.reference _ _) =>
    iff_of_false not_holdsAbsent_plain (not_readsNull_of_reference (form?_keywords hform))
  | .intro hform (.variants h) => by
    obtain ⟨href, hvariants⟩ := form?_keywords hform
    rw [holdsAbsent_oneOf_iff, readsNull_variants_iff href hvariants, h.holdsAbsent_iff]
  | .intro hform (.named h) => by
    obtain ⟨href, hvariants, htype⟩ := form?_keywords hform
    rw [holdsAbsent_nullable_iff, readsNull_said_iff href hvariants, SaysNull, typeNames, htype,
      List.mem_singleton, holdsAbsent_named_iff h, @eq_comm _ "null"]
  | .intro hform (.listed h) => by
    obtain ⟨href, hvariants, htypes⟩ := form?_keywords hform
    rw [holdsAbsent_nullable_iff, readsNull_said_iff href hvariants, SaysNull, typeNames, htypes,
      holdsAbsent_oneOf_iff, holdsAbsent_names_iff h]
  | .intro hform (.untyped h) => by
    obtain ⟨href, hvariants, htype⟩ := form?_keywords hform
    rw [holdsAbsent_nullable_iff, readsNull_said_iff href hvariants, SaysNull, typeNames, htype]
    simp [not_holdsAbsent_plain, DeclaredType.model]
termination_by structural h => h

/-- One of the types of variants holds the marker if null is read off one of the variants. -/
theorem HasVariants.holdsAbsent_iff {property : String} {variants : List Json}
    {declareds : List DeclaredType} : HasVariants lookup property variants declareds →
    ((∃ declared ∈ declareds, declared.HoldsAbsent) ↔ ∃ variant ∈ variants, ReadsNull variant)
  | .nil => by simp
  | .cons htype hrest => by
    simp only [List.mem_cons, exists_eq_or_imp, htype.holdsAbsent_iff, hrest.holdsAbsent_iff]
termination_by structural h => h

end

end Reading

/-! ## Where record models come from -/

/-- The record model is that of a schema that the place leads to. -/
def Made (lookup : Lookup) (place : Place) (r : RecordModel) : Prop :=
  ∃ schema fallback, ReflTransGen (LeadsTo lookup) place (.model schema) ∧
    HasModel lookup fallback schema r

section Made

variable {lookup : Lookup} {place next : Place} {r : RecordModel}

theorem LeadsTo.made (h : LeadsTo lookup place next) (hmade : Made lookup next r) :
    Made lookup place r := by
  obtain ⟨schema, fallback, hpath, hmodel⟩ := hmade
  exact ⟨schema, fallback, .head h hpath, hmodel⟩

mutual

/-- A record model that the one of a schema reaches is made of a schema that this leads to. -/
theorem HasModel.made {fallback : Option String} {schema : Json} {model : RecordModel} :
    HasModel lookup fallback schema model → Formwork.Reaches (.model model) r →
    Made lookup (.model schema) r
  | .intro hname hproperties hfields, h => by
    rw [DeclaredType.model] at h
    cases h with
    | here => exact ⟨schema, fallback, .refl, .intro hname hproperties hfields⟩
    | field hfield h =>
      obtain ⟨property, hmem, hmade⟩ := hfields.made hfield h
      exact (LeadsTo.property hproperties hmem).made hmade
termination_by structural h => h

/-- What a field reaches is made of a schema that one of the properties leads to. -/
theorem HasFields.made {required : List String} {properties : List (String × Json)}
    {fields : List ModelField} {field : ModelField} : HasFields lookup required properties fields →
    field ∈ fields → Formwork.Reaches field.declared r →
    ∃ property ∈ properties, Made lookup (.type property.2) r
  | .nil, hmem, _ => nomatch hmem
  | .cons htype hrest, hmem, h => by
    rcases List.mem_cons.1 hmem with rfl | hmem
    · exact ⟨_, List.mem_cons_self, htype.made (reaches_fieldOf_iff.1 h)⟩
    · obtain ⟨property, hproperty, hmade⟩ := hrest.made hmem h
      exact ⟨property, List.mem_cons_of_mem _ hproperty, hmade⟩
termination_by structural h => h

/-- What the type of a schema reaches is made of a schema that this leads to. -/
theorem HasType.made {property : String} {schema : Json} {declared : DeclaredType} :
    HasType lookup property schema declared → Formwork.Reaches declared r →
    Made lookup (.type schema) r
  | .intro hform hdeclared, h => hdeclared.made hform h
termination_by structural h => h

/-- What the type of a schema of a form reaches is made of a schema that this leads to. -/
theorem HasForm.made {property : String} {schema : Json} {form : Form} {declared : DeclaredType} :
    HasForm lookup property schema form declared → form? schema = some form →
    Formwork.Reaches declared r → Made lookup (.type schema) r
  | .reference hlookup hmodel, hform, h => (LeadsTo.reference hform hlookup).made (hmodel.made h)
  | .variants hvariants, hform, h => by
    obtain ⟨part, hpart, h⟩ := reaches_oneOf_iff.1 h
    obtain ⟨variant, hmem, hmade⟩ := hvariants.made hpart h
    exact (LeadsTo.variant hform hmem).made hmade
  | .named hnamed, hform, h => (LeadsTo.named hform).made (hnamed.made (reaches_nullable_iff.1 h))
  | .listed hnames, hform, h => by
    obtain ⟨part, hpart, h⟩ := reaches_oneOf_iff.1 (reaches_nullable_iff.1 h)
    obtain ⟨type, hmem, hmade⟩ := hnames.made hpart h
    exact (LeadsTo.listed hform hmem).made hmade
  | .untyped hmodel, hform, h =>
    (LeadsTo.untyped hform).made (hmodel.made (reaches_nullable_iff.1 h))
termination_by structural h => h

/-- What the type of a variant reaches is made of a schema that one of the variants leads to. -/
theorem HasVariants.made {property : String} {variants : List Json} {declareds : List DeclaredType}
    {declared : DeclaredType} : HasVariants lookup property variants declareds →
    declared ∈ declareds → Formwork.Reaches declared r →
    ∃ variant ∈ variants, Made lookup (.type variant) r
  | .nil, hmem, _ => nomatch hmem
  | .cons htype hrest, hmem, h => by
    rcases List.mem_cons.1 hmem with hfirst | hmem
    · exact ⟨_, List.mem_cons_self, htype.made (hfirst ▸ h)⟩
    · obtain ⟨variant, hvariant, hmade⟩ := hrest.made hmem h
      exact ⟨variant, List.mem_cons_of_mem _ hvariant, hmade⟩
termination_by structural h => h

/-- What the type of a name reaches is made of a schema that the items lead to, or the schema itself. -/
theorem HasNamed.made {property type : String} {schema : Json} {declared : DeclaredType} :
    HasNamed lookup property schema type declared → Formwork.Reaches declared r →
    Made lookup (.named schema type) r
  | .leaf hleaf hreading, h => absurd h (not_reaches_leaf hleaf hreading)
  | .array hitems htype, h => by
    obtain _ | _ | ⟨h⟩ := h
    exact (LeadsTo.items hitems).made (htype.made h)
  | .object hmodel, h => LeadsTo.object.made (hmodel.made h)
termination_by structural h => h

/-- What a type in a list of names reaches is made of a schema that one of the names leads to. -/
theorem HasNames.made {property : String} {schema : Json} {types : List Json}
    {declareds : List DeclaredType} {declared : DeclaredType} :
    HasNames lookup property schema types declareds → declared ∈ declareds →
    Formwork.Reaches declared r → ∃ type, .text type ∈ types ∧ Made lookup (.named schema type) r
  | .nil, hmem, _ => nomatch hmem
  | .cons hnamed hrest, hmem, h => by
    rcases List.mem_cons.1 hmem with hfirst | hmem
    · exact ⟨_, List.mem_cons_self, hnamed.made (hfirst ▸ h)⟩
    · obtain ⟨type, htype, hmade⟩ := hrest.made hmem h
      exact ⟨type, List.mem_cons_of_mem _ htype, hmade⟩
termination_by structural h => h

end

/-- What a place with a meaning leads to has one, and it reaches nothing new. -/
theorem Place.Denotes.along {last : Place} {declared : DeclaredType}
    (h : ReflTransGen (LeadsTo lookup) place last) (hplace : place.Denotes lookup declared) :
    ∃ part, last.Denotes lookup part ∧
      ∀ r, Formwork.Reaches part r → Formwork.Reaches declared r := by
  induction h with
  | refl => exact ⟨declared, hplace, fun r hr => hr⟩
  | tail _ hlast ih =>
    obtain ⟨middle, hmiddle, hreaches⟩ := ih
    obtain ⟨part, hpart, hreaches'⟩ := hlast.denotes hmiddle
    exact ⟨part, hpart, fun r hr => hreaches r (hreaches' r hr)⟩

end Made

/-! ## The law -/

/-- The field is that of the property. If it has a shape, then this is optional exactly if the
property need not be there or null is read off its schema. -/
structure OptionalAsRead (required : List String) (property : String × Json) (field : ModelField) :
    Prop where
  name : field.name = property.1
  optional : ∀ origin d, field.declared.describe origin = .ok d →
    (d.isOptional = true ↔ property.1 ∉ required ∨ ReadsNull property.2)

/-- The fields of the record model are those of the properties of the schema, one by one, and are
optional as these are read. -/
def FieldsAsRead (schema : Json) (model : RecordModel) : Prop :=
  ∃ properties, object? schema "properties" = some properties ∧
    List.Forall₂ (OptionalAsRead (requiredNames schema)) properties model.fields

theorem HasFields.asRead {lookup : Lookup} {required : List String}
    {properties : List (String × Json)} {fields : List ModelField}
    (h : HasFields lookup required properties fields) :
    List.Forall₂ (OptionalAsRead required) properties fields := by
  induction properties generalizing fields with
  | nil =>
    cases h
    exact .nil
  | cons property rest ih =>
    obtain _ | ⟨htype, hrest⟩ := h
    refine .cons ⟨rfl, fun origin d hd => ?_⟩ (ih hrest)
    rw [isOptional_iff_of_describe hd, holdsAbsent_fieldOf_iff, htype.holdsAbsent_iff]

theorem HasModel.asRead {lookup : Lookup} {fallback : Option String} {schema : Json}
    {model : RecordModel} (h : HasModel lookup fallback schema model) : FieldsAsRead schema model := by
  obtain ⟨_, hproperties, hfields⟩ := h
  exact ⟨_, hproperties, hfields.asRead⟩

/-- The fields of a document that is read are optional as their properties are read, however deep they
stand: those of every record model that its own one reaches, and those of every schema that stands for
one. Null is read off a schema that allows it, unless the schema hides it. -/
theorem fields_are_optional_as_read (document : Json) (model : RecordModel)
    (hok : ofDocument document = .ok model) :
    (∀ inner, Formwork.Reaches (.model model) inner → ∃ schema,
      ReflTransGen (LeadsTo (consulting document)) (.model document) (.model schema) ∧
        FieldsAsRead schema inner) ∧
      (∀ schema, ReflTransGen (LeadsTo (consulting document)) (.model document) (.model schema) →
        ∃ inner, Formwork.Reaches (.model model) inner ∧ FieldsAsRead schema inner) ∧
      ∀ schema, AdmitsNull schema ↔ ReadsNull schema ∨ HidesNull schema := by
  have hread : ReadAsMeant document (consulting document) := readAsMeant fun _ _ _ _ => rfl
  have hmodel := (hread.model model hok model).2 rfl
  refine ⟨fun inner hinner => ?_, fun schema hpath => ?_, fun schema => admitsNull_iff⟩
  · obtain ⟨schema, fallback, hpath, hinner⟩ := hmodel.made hinner
    exact ⟨schema, hpath, hinner.asRead⟩
  · have hdocument : (Place.model document).Denotes (consulting document) (.model model) :=
      ⟨none, model, hmodel, rfl⟩
    obtain ⟨_, ⟨_, inner, hinner, rfl⟩, hreaches⟩ := hdocument.along hpath
    exact ⟨inner, hreaches inner (.here inner), hinner.asRead⟩

/-- A person with a home of this schema, which must be there. -/
def homed (home : Json) : Json :=
  .object [("title", .text "Person"), ("properties", .object [("home", home)]),
    ("required", .array [.text "home"]), ("$defs", .object [("City", city "City")])]

/-- The record model of a person with a home of this type. -/
def homedModel (home : Json) (declared : DeclaredType) : RecordModel :=
  ⟨"Person", .schema, [fieldOf ["home"] "home" home declared]⟩

/-- A home that is a text or null. -/
theorem fields_are_optional_as_read_of_a_person :
    let home : Json := .object [("type", .array [.text "string", .text "null"])]
    let model := homedModel home (.union [.scalar .str, .absent])
    ofDocument (homed home) = .ok model ∧ ReadsNull home ∧ ∃ schema, FieldsAsRead schema model := by
  intro home model
  have hok : ofDocument (homed home) = .ok model := ofDocument_eq 10 fun _ => rfl
  obtain ⟨schema, _, hfields⟩ := (fields_are_optional_as_read _ model hok).1 model (.here model)
  exact ⟨hok, .said rfl rfl (.inr (by decide)), schema, hfields⟩

/-- Beside a reference, and beside variants, null is allowed and not read: the home must be there and
may be null, and its field is not optional. -/
theorem null_is_not_read_beside_a_reference :
    let misread (home : Json) (declared : DeclaredType) : Prop :=
      ofDocument (homed home) = .ok (homedModel home declared) ∧ AdmitsNull home ∧
        ∃ d, (fieldOf ["home"] "home" home declared).declared.describe .schemaField = .ok d ∧
          d.isOptional = false
    misread (.object [("$ref", .text "#/$defs/City"), ("nullable", .bool true)])
        (.model (cityModel "City")) ∧
      misread (.object [("anyOf", .array [.object [("type", .text "string")]]),
        ("nullable", .bool true)]) (.scalar .str) :=
  ⟨⟨ofDocument_eq 10 fun _ => rfl, .said (.inl rfl), _, rfl, rfl⟩,
    ⟨ofDocument_eq 10 fun _ => rfl, .said (.inl rfl), _, rfl, rfl⟩⟩

end Schema

end Formwork
