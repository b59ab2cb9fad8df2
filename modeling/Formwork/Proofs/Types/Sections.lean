-- The two sections of a document that hold definitions. A reference points to one of them, but all
-- references of a document are looked up in one section only: in "$defs", if the document has that,
-- and in "definitions" otherwise. A document is read as it is meant with that in mind, however often
-- its references are met. It is read as its references point, if they all point to that section.
import Formwork.Proofs.Types.Meaning

namespace Formwork

/-! ## Reports of missing definitions -/

/-- The error reports a reference without a definition. -/
def Error.ReportsMissing : Error → Prop
  | .unknownName _ message _ => "Schema definition '".toList <+: message.toList
  | e => "No definitions for reference ".toList <+: e.message.toList

theorem SchemaFault.reportsMissing_iff {fault : SchemaFault} :
    fault.error.ReportsMissing ↔ fault.refusal.error.ReportsMissing := by
  unfold SchemaFault.error
  split
  · unfold Error.withOwner
    split
    · rename_i h
      rw [h]
      rfl
    · rename_i h
      rw [h]
      rfl
    · rename_i h
      rw [h]
      rfl
    · rfl
  · rfl

/-- Whether a refusal may be reported as a missing definition: two are, and one has the words of an
enum that can not be declared. -/
def SchemaRefusal.mayReportMissing : SchemaRefusal → Bool
  | .noDefinitions _ => true
  | .unknownDefinition _ _ => true
  | .badEnum _ => true
  | _ => false

/-- All others are reported in other words. -/
theorem SchemaRefusal.not_reportsMissing {refusal : SchemaRefusal}
    (h : refusal.mayReportMissing = false) : ¬ refusal.error.ReportsMissing := by
  cases refusal with
  | noDefinitions => cases h
  | unknownDefinition => cases h
  | badEnum => cases h
  | _ => simp [Error.ReportsMissing, error, Error.message, Error.ofKind, toString]

theorem SchemaRefusal.mayReportMissing_of_form {refusal : SchemaRefusal}
    (h : refusal.isOfForm = true) : refusal.mayReportMissing = false := by
  cases refusal with
  | noDefinitions => cases h
  | unknownDefinition => cases h
  | badEnum => cases h
  | _ => rfl

/-- An enum that can not be declared is reported in other words, too. -/
theorem Error.IsOfEnum.not_reportsMissing {e : Error} (h : e.IsOfEnum) : ¬ e.ReportsMissing := by
  have hother : ¬ "No definitions for reference ".toList <+: e.message.toList :=
    h.not_begins (by decide)
  obtain ⟨kind, message, rfl, _⟩ := h
  exact hother

namespace Schema

open Relation

/-! ## Readings and what they mean -/

/-- Looks references up by their names alone. -/
def lookupIn (definitions : Option (Ordered Json)) : Lookup := fun reference => do
  let name ← referenced? reference
  let target ← definitions.bind (·.find? name)
  return (name, target)

/-- The schema is a reference to a definition, and nothing stands for it. -/
def Dangles (lookup : Lookup) (schema : Json) : Prop :=
  ∃ reference, text? schema "$ref" = some reference ∧ (referenced? reference).isSome ∧
    lookup reference = none

/-- If the fault is reported as a missing definition, then the place reaches a reference that nothing
stands for. -/
def Blames (lookup : Lookup) (place : Place) (fault : SchemaFault) : Prop :=
  fault.refusal.error.ReportsMissing → ∃ schema, Reaches lookup place schema ∧ Dangles lookup schema

/-- The two ways to look up references agree on those that the place reaches. -/
def Agree (lookup lookup' : Lookup) (place : Place) : Prop :=
  ∀ schema reference, Reaches lookup place schema → text? schema "$ref" = some reference →
    lookup reference = lookup' reference

section Readings

variable {definitions : Option (Ordered Json)} {lookup lookup' : Lookup} {visiting : List String}
  {place next : Place} {schema : Json} {property : String}

theorem LeadsTo.blames {fault : SchemaFault} (h : LeadsTo lookup place next)
    (hblames : Blames lookup next fault) : Blames lookup place fault := by
  intro hmissing
  obtain ⟨schema, hreaches, hdangles⟩ := hblames hmissing
  exact ⟨schema, h.reaches hreaches, hdangles⟩

theorem Agree.inner (hagree : Agree lookup lookup' place) (h : LeadsTo lookup place next) :
    Agree lookup lookup' next :=
  fun schema reference hreaches => hagree schema reference (h.reaches hreaches)

theorem blames_of_form {refusal : SchemaRefusal} {context : Option String}
    (h : refusal.isOfForm = true) : Blames lookup place ⟨refusal, context⟩ := fun hmissing =>
  absurd hmissing (SchemaRefusal.not_reportsMissing (SchemaRefusal.mayReportMissing_of_form h))

theorem lookupIn_of_definition {reference name : String} {target : Json}
    (hname : referenced? reference = some name)
    (h : definition definitions visiting reference name = .ok target) :
    lookupIn definitions reference = some (name, target) := by
  have hfound := (definition_ok_iff.1 h).2
  simp [lookupIn, hname, hfound]

/-- A definition that is missing stands for nothing. -/
theorem lookupIn_of_refusal {reference name : String} {refusal : SchemaRefusal}
    (hname : referenced? reference = some name)
    (h : definition definitions visiting reference name = .error refusal)
    (hmissing : refusal.error.ReportsMissing) : lookupIn definitions reference = none := by
  unfold definition at h
  split at h
  · cases h
    exact absurd hmissing (SchemaRefusal.not_reportsMissing rfl)
  · split at h
    · simp [lookupIn, hname]
    · split at h
      · cases h
      · rename_i hfound
        simp [lookupIn, hname, hfound]

/-- A reference means what stands for it, if reading that comes to what it means. -/
theorem meets_reference {fuel : Nat} {reference : String}
    (hform : form? schema = some (.reference reference))
    (hagree : lookup reference = lookupIn definitions reference)
    (h : ∀ name target, LeadsTo lookup (.type schema) (.model target) →
      Meets (rereadModel definitions fuel (name :: visiting) target (some name))
        (HasModel lookup (some name) target) (Blames lookup (.model target))) :
    Meets (rereadReference definitions fuel visiting reference) (HasType lookup property schema)
      (Blames lookup (.type schema)) := by
  unfold rereadReference
  rcases hname : referenced? reference with _ | name
  · exact meets_refuse (blames_of_form rfl)
  simp only
  rcases hdefinition : definition definitions visiting reference name with refusal | target
  · -- The reference itself is to blame, and it is reached at once.
    refine meets_refuse fun hmissing =>
      ⟨schema, .refl, reference, form?_reference_iff.1 hform, ?_, ?_⟩
    · rw [hname]
      rfl
    · rw [hagree]
      exact lookupIn_of_refusal hname hdefinition hmissing
  · have hlookup := hagree.trans (lookupIn_of_definition hname hdefinition)
    have hleads : LeadsTo lookup (.type schema) (.model target) := .reference hform hlookup
    refine ((h name target hleads).weaken fun _ => hleads.blames).map fun model hmodel => ?_
    exact .intro hform (.reference hlookup hmodel)

/-- A leaf has the type that it is read as, and misses no definition. -/
theorem meets_leaf {type : String} {reading : Reading DeclaredType}
    (hleaf : leaf? schema property type = some reading) :
    Meets (.ofReading reading) (HasNamed lookup property schema type)
      (Blames lookup place) := by
  refine meets_ended (fun declared h => .leaf hleaf (congrArg Attempt.ended h))
    fun fault h hmissing => ?_
  obtain ⟨cause, hrefusal, henum⟩ := leaf_fault hleaf h
  rw [hrefusal] at hmissing
  exact absurd hmissing henum.not_reportsMissing

end Readings

section Readings

variable (definitions : Option (Ordered Json)) (lookup : Lookup)

mutual

/-- Reading a record model anew comes to the one that the schema means. -/
theorem meets_model : ∀ (fuel : Nat) (visiting : List String) (schema : Json)
    (fallback : Option String), Agree lookup (lookupIn definitions) (.model schema) →
    Meets (rereadModel definitions fuel visiting schema fallback)
      (HasModel lookup fallback schema) (Blames lookup (.model schema))
  | 0, _, _, _, _ => meets_stopped
  | fuel + 1, visiting, schema, fallback, hagree => by
    rw [rereadModel_eq]
    rcases hform : modelForm schema fallback with refusal | ⟨name, properties⟩
    · exact meets_refuse (blames_of_form (isOfForm_modelForm hform))
    · obtain ⟨hname, hproperties⟩ := modelForm_ok hform
      have hleads : ∀ property ∈ properties, LeadsTo lookup (.model schema) (.type property.2) :=
        fun _ => .property hproperties
      refine (meets_properties fuel visiting name (requiredNames schema) properties
        (fun property hmem => hagree.inner (hleads property hmem))
        (fun property hmem _ => (hleads property hmem).blames)).map fun fields hfields => ?_
      exact .intro hname hproperties hfields

/-- Reading properties anew comes to the fields that they mean. -/
theorem meets_properties {bad : SchemaFault → Prop} : ∀ (fuel : Nat) (visiting : List String)
    (model : String) (required : List String) (properties : List (String × Json)),
    (∀ property ∈ properties, Agree lookup (lookupIn definitions) (.type property.2)) →
    (∀ property ∈ properties, ∀ fault, Blames lookup (.type property.2) fault → bad fault) →
    Meets (rereadProperties definitions fuel visiting model required properties)
      (HasFields lookup required properties) bad
  | 0, _, _, _, _, _, _ => meets_stopped
  | _ + 1, _, _, _, [], _, _ => meets_pure .nil
  | fuel + 1, visiting, model, required, (key, schema) :: rest, hagree, hbad => by
    obtain ⟨hfirst, hagree⟩ := List.forall_mem_cons.1 hagree
    obtain ⟨hbadfirst, hbad⟩ := List.forall_mem_cons.1 hbad
    rw [rereadProperties_cons]
    have htype := (meets_type fuel visiting schema key hfirst).within (model ++ "." ++ key)
      fun _ => id
    refine (htype.weaken hbadfirst).bind fun declared hdeclared => ?_
    exact (meets_properties fuel visiting model required rest hagree hbad).map fun _ hfields =>
      .cons hdeclared hfields

/-- Reading a type anew comes to the one that the schema means, whatever its form. -/
theorem meets_type : ∀ (fuel : Nat) (visiting : List String) (schema : Json) (property : String),
    Agree lookup (lookupIn definitions) (.type schema) →
    Meets (rereadType definitions fuel visiting schema property)
      (HasType lookup property schema) (Blames lookup (.type schema))
  | 0, _, _, _, _ => meets_stopped
  | fuel + 1, visiting, schema, property, hagree => by
    rw [rereadType_eq]
    rcases hread : typeForm schema property with refusal | form
    · exact meets_refuse (blames_of_form (isOfForm_typeForm hread))
    have hform := typeForm_ok hread
    cases form with
    | reference reference =>
      refine meets_reference hform (hagree schema reference .refl (form?_reference_iff.1 hform)) ?_
      exact fun name target hleads =>
        meets_model fuel (name :: visiting) target (some name) (hagree.inner hleads)
    | variants variants =>
      have hleads : ∀ variant ∈ variants, LeadsTo lookup (.type schema) (.type variant) :=
        fun _ => .variant hform
      refine (meets_variants fuel visiting property variants
        (fun variant hmem => hagree.inner (hleads variant hmem))
        (fun variant hmem _ => (hleads variant hmem).blames)).map fun _ hdeclareds => ?_
      exact .intro hform (.variants hdeclareds)
    | named type =>
      have hleads : LeadsTo lookup (.type schema) (.named schema type) := .named hform
      have hnamed := meets_named fuel visiting schema property type (hagree.inner hleads)
      exact (hnamed.weaken fun _ => hleads.blames).map fun _ hdeclared =>
        .intro hform (.named hdeclared)
    | listed types =>
      have hleads : ∀ type, .text type ∈ types →
          LeadsTo lookup (.type schema) (.named schema type) := fun _ => .listed hform
      refine (meets_names fuel visiting schema property types
        (fun type hmem => hagree.inner (hleads type hmem))
        (fun type hmem _ => (hleads type hmem).blames) fun _ => blames_of_form).map ?_
      exact fun _ hdeclareds => .intro hform (.listed hdeclareds)
    | untyped =>
      have hleads : LeadsTo lookup (.type schema) (.model schema) := .untyped hform
      have hmodel := meets_model fuel visiting schema (some property) (hagree.inner hleads)
      exact (hmodel.weaken fun _ => hleads.blames).map fun _ hmodel =>
        .intro hform (.untyped hmodel)

/-- Reading variants anew comes to the types that they mean. -/
theorem meets_variants {bad : SchemaFault → Prop} : ∀ (fuel : Nat) (visiting : List String)
    (property : String) (variants : List Json),
    (∀ variant ∈ variants, Agree lookup (lookupIn definitions) (.type variant)) →
    (∀ variant ∈ variants, ∀ fault, Blames lookup (.type variant) fault → bad fault) →
    Meets (rereadVariants definitions fuel visiting property variants)
      (HasVariants lookup property variants) bad
  | 0, _, _, _, _, _ => meets_stopped
  | _ + 1, _, _, [], _, _ => meets_pure .nil
  | fuel + 1, visiting, property, variant :: rest, hagree, hbad => by
    obtain ⟨hfirst, hagree⟩ := List.forall_mem_cons.1 hagree
    obtain ⟨hbadfirst, hbad⟩ := List.forall_mem_cons.1 hbad
    rw [rereadVariants]
    refine ((meets_type fuel visiting variant property hfirst).weaken hbadfirst).bind
      fun declared hdeclared => ?_
    exact (meets_variants fuel visiting property rest hagree hbad).map fun _ hdeclareds =>
      .cons hdeclared hdeclareds

/-- Reading a list of names anew comes to the types that they give the schema. -/
theorem meets_names {bad : SchemaFault → Prop} : ∀ (fuel : Nat) (visiting : List String)
    (schema : Json) (property : String) (types : List Json),
    (∀ type, .text type ∈ types → Agree lookup (lookupIn definitions) (.named schema type)) →
    (∀ type, .text type ∈ types → ∀ fault, Blames lookup (.named schema type) fault → bad fault) →
    (∀ refusal : SchemaRefusal, refusal.isOfForm = true → bad ⟨refusal, none⟩) →
    Meets (rereadTypes definitions fuel visiting schema property types)
      (HasNames lookup property schema types) bad
  | 0, _, _, _, _, _, _, _ => meets_stopped
  | _ + 1, _, _, _, [], _, _, _ => meets_pure .nil
  | fuel + 1, visiting, schema, property, type :: rest, hagree, hbad, hrefusal => by
    cases type with
    | text type =>
      rw [rereadTypes]
      have hnamed := meets_named fuel visiting schema property type (hagree type List.mem_cons_self)
      refine (hnamed.weaken (hbad type List.mem_cons_self)).bind fun declared hdeclared => ?_
      exact (meets_names fuel visiting schema property rest
        (fun type hmem => hagree type (List.mem_cons_of_mem _ hmem))
        (fun type hmem => hbad type (List.mem_cons_of_mem _ hmem)) hrefusal).map
          fun _ hdeclareds => .cons hdeclared hdeclareds
    | _ =>
      rw [rereadTypes]
      · exact meets_refuse (hrefusal _ rfl)
      · nofun

/-- Reading the type of a name anew comes to the one that it gives the schema. -/
theorem meets_named : ∀ (fuel : Nat) (visiting : List String) (schema : Json)
    (property type : String), Agree lookup (lookupIn definitions) (.named schema type) →
    Meets (rereadNamed definitions fuel visiting schema property type)
      (HasNamed lookup property schema type) (Blames lookup (.named schema type))
  | 0, _, _, _, _, _ => meets_stopped
  | fuel + 1, visiting, schema, property, type, hagree => by
    rw [rereadNamed_eq]
    rcases hform : namedForm schema property type with refusal | form
    · exact meets_refuse (blames_of_form (isOfForm_namedForm hform))
    cases form with
    | leaf => exact meets_leaf (namedForm_ok hform)
    | items items =>
      obtain ⟨rfl, hitems⟩ := namedForm_ok hform
      have hleads : LeadsTo lookup (.named schema "array") (.type items) := .items hitems
      have htype := meets_type fuel visiting items property (hagree.inner hleads)
      exact (htype.weaken fun _ => hleads.blames).map fun _ => .array hitems
    | record =>
      obtain rfl := namedForm_ok hform
      have hleads : LeadsTo lookup (.named schema "object") (.model schema) := .object
      have hmodel := meets_model fuel visiting schema (some property) (hagree.inner hleads)
      exact (hmodel.weaken fun _ => hleads.blames).map fun _ => .object

end

end Readings

/-! ## Sections -/

/-- The section that a reference points to. -/
def pointsTo? (reference : String) : Option String :=
  if "#/$defs/".toList.isPrefixOf reference.toList then some "$defs"
  else if "#/definitions/".toList.isPrefixOf reference.toList then some "definitions"
  else none

/-- The section that all references of a document are looked up in. -/
def consultedSection (document : Json) : String :=
  if (document.get? "$defs").isSome then "$defs" else "definitions"

/-- Looks up references in the section that is consulted for the whole document. -/
def consulting (document : Json) : Lookup := lookupIn (object? document (consultedSection document))

/-- Looks up each reference in the section that it points to. -/
def pointing (document : Json) : Lookup := fun reference =>
  (pointsTo? reference).bind fun key => lookupIn (object? document key) reference

/-- All references that the document means, where each one means what it points to, point to the
section that is consulted. -/
def Straight (document : Json) : Prop :=
  ∀ schema reference key, Reaches (pointing document) (.model document) schema →
    text? schema "$ref" = some reference → pointsTo? reference = some key →
    key = consultedSection document

theorem definitions?_eq (document : Json) :
    definitions? document = object? document (consultedSection document) := by
  unfold definitions? object? consultedSection
  cases hnewer : document.get? "$defs" <;> simp [hnewer]

/-- A reference points to a section if it has the name of a definition. -/
theorem isSome_referenced? (reference : String) :
    (referenced? reference).isSome = (pointsTo? reference).isSome := by
  simp only [referenced?, pointsTo?]
  split
  · rfl
  · split
    · rfl
    · rfl

theorem lookupIn_eq_none {definitions : Option (Ordered Json)} {reference : String}
    (h : pointsTo? reference = none) : lookupIn definitions reference = none := by
  have hname := isSome_referenced? reference
  rw [h, Option.isSome_none, Option.isSome_eq_false_iff, Option.isNone_iff_eq_none] at hname
  simp [lookupIn, hname]

theorem Straight.agree {document : Json} (h : Straight document) :
    Agree (pointing document) (consulting document) (.model document) := by
  intro schema reference hreaches href
  unfold pointing
  rcases hkey : pointsTo? reference with _ | key
  · exact (lookupIn_eq_none hkey).symm
  · rw [h schema reference key hreaches href hkey]
    rfl

/-! ## A person and a city -/

theorem ofDocument_eq {document : Json} {outcome : Except Error RecordModel} (steps : Nat)
    (h : ∀ fuel, rereadDocument (fuel + steps) document = some outcome) :
    ofDocument document = outcome := by
  obtain ⟨depth, hdepth⟩ := rereadDocument_settles document
  exact Option.some.inj ((hdepth (depth + steps) (Nat.le_add_right ..)).symm.trans (h depth))

/-- A city under this title. -/
def city (title : String) : Json :=
  .object [("title", .text title),
    ("properties", .object [("name", .object [("type", .text "string")])])]

/-- A person with a home that is defined elsewhere. The document has definitions in these sections. -/
def person (reference : String) (sections : Ordered Json) : Json :=
  .object ([("title", .text "Person"),
    ("properties", .object [("home", .object [("$ref", .text reference)])]),
    ("required", .array [.text "home"])] ++ sections)

/-- The record model of a city under this title. -/
def cityModel (title : String) : RecordModel :=
  ⟨title, .schema, [fieldOf [] "name" (.object [("type", .text "string")]) (.scalar .str)]⟩

/-- The record model of a person whose home is a city under this title. -/
def personModel (reference title : String) : RecordModel :=
  ⟨"Person", .schema, [fieldOf ["home"] "home" (.object [("$ref", .text reference)])
    (.model (cityModel title))]⟩

theorem hasModel_city (lookup : Lookup) (fallback : Option String) (title : String) :
    HasModel lookup fallback (city title) (cityModel title) :=
  .intro rfl rfl (.cons (.intro rfl (.named (.leaf rfl rfl))) .nil)

theorem hasModel_person {lookup : Lookup} {reference name title : String} (sections : Ordered Json)
    (h : lookup reference = some (name, city title)) :
    HasModel lookup none (person reference sections) (personModel reference title) :=
  .intro rfl rfl (.cons (.intro rfl (.reference h (hasModel_city lookup _ title))) .nil)

theorem LeadsTo.of_named {lookup : Lookup} {schema : Json} {type : String} {next : Place}
    (h : LeadsTo lookup (.named schema type) next) : type = "array" ∨ type = "object" := by
  cases h with
  | items => exact .inl rfl
  | object => exact .inr rfl

/-- A person reaches its home, and from there the name of a city. -/
theorem person_reaches {lookup : Lookup} {reference name title : String} {sections : Ordered Json}
    {schema : Json} (hlookup : lookup reference = some (name, city title))
    (h : Reaches lookup (.model (person reference sections)) schema) :
    schema = .object [("$ref", .text reference)] ∨ schema = .object [("type", .text "string")] := by
  have hplaces : ∀ {place : Place},
      ReflTransGen (LeadsTo lookup) (.model (person reference sections)) place →
        place ∈ [.model (person reference sections), .type (.object [("$ref", .text reference)]),
          .model (city title), .type (.object [("type", .text "string")]),
          .named (.object [("type", .text "string")]) "string"] := by
    intro place hpath
    induction hpath with
    | refl => exact List.mem_cons_self
    | tail _ hlast ih =>
      simp only [List.mem_cons, List.not_mem_nil, or_false] at ih ⊢
      rcases ih with rfl | rfl | rfl | rfl | rfl
      · obtain ⟨hproperties, hmem⟩ := hlast
        cases hproperties
        rw [List.mem_singleton.1 hmem]
        exact .inr (.inl rfl)
      · cases hlast with
        | reference hform hfound =>
          cases hform
          cases hlookup.symm.trans hfound
          exact .inr (.inr (.inl rfl))
        | variant hform | named hform | listed hform | untyped hform => cases hform
      · obtain ⟨hproperties, hmem⟩ := hlast
        cases hproperties
        rw [List.mem_singleton.1 hmem]
        exact .inr (.inr (.inr (.inl rfl)))
      · cases hlast with
        | named hform =>
          cases hform
          exact .inr (.inr (.inr (.inr rfl)))
        | reference hform | variant hform | listed hform | untyped hform => cases hform
      · exact absurd hlast.of_named (by decide)
  have hmem := hplaces h
  simpa using hmem

/-! ## The law -/

/-- The document is read as it is meant, where a reference means what it is looked up as. If it is
read as a model, then that is the one that it means, and each schema in it that is a reference has the
record model of what stands for the reference as its type, and no other. It is reported to miss a
definition only if it reaches a reference that nothing stands for. -/
structure ReadAsMeant (document : Json) (lookup : Lookup) : Prop where
  model : ∀ model, ofDocument document = .ok model →
    ∀ other, HasModel lookup none document other ↔ other = model
  references : ∀ model, ofDocument document = .ok model → ∀ schema reference,
    Reaches lookup (.model document) schema → text? schema "$ref" = some reference →
    ∃ name target inner, lookup reference = some (name, target) ∧
      HasModel lookup (some name) target inner ∧
      ∀ property declared, HasType lookup property schema declared ↔ declared = .model inner
  missing : ∀ e, ofDocument document = .error e → e.ReportsMissing →
    ∃ schema, Reaches lookup (.model document) schema ∧ Dangles lookup schema

theorem readAsMeant {document : Json} {lookup : Lookup}
    (h : Agree lookup (consulting document) (.model document)) : ReadAsMeant document lookup := by
  obtain ⟨depth, hdepth⟩ := rereadDocument_settles document
  have hread := hdepth depth (Nat.le_refl depth)
  unfold consulting at h
  rw [← definitions?_eq] at h
  -- With enough steps, the reading that remembers nothing gives what the document is read as.
  have hmeets := meets_model (definitions? document) lookup depth [] document none h
  have hmodel : ∀ model, ofDocument document = .ok model → HasModel lookup none document model :=
    fun model hok => hmeets.ok model (rereadDocument_ok_iff.1 (hread.trans (congrArg some hok)))
  refine ⟨fun model hok other => ?_, fun model hok schema reference hreaches href => ?_,
    fun e he hmissing => ?_⟩
  · exact ⟨fun hother => hother.unique (hmodel model hok), fun heq => heq ▸ hmodel model hok⟩
  · obtain ⟨property, declared, htype⟩ := hreaches.means ⟨none, model, hmodel model hok⟩
    have hform := form?_reference_iff.2 href
    obtain ⟨hlookup, hinner⟩ := htype.form hform
    refine ⟨_, _, _, hlookup, hinner, fun property' declared' => ⟨fun htype' => ?_, ?_⟩⟩
    · exact (htype'.form hform).unique (.reference hlookup hinner)
    · rintro rfl
      exact .intro hform (.reference hlookup hinner)
  · obtain ⟨fault, hrun, rfl⟩ := rereadDocument_error_iff.1 (hread.trans (congrArg some he))
    exact hmeets.bad fault hrun (SchemaFault.reportsMissing_iff.1 hmissing)

/-- Every document is read as it is meant, where all its references are looked up in one section:
"$defs" if the document has that, and "definitions" otherwise. If all references in it point to that
section, it is read as it is meant where each reference is looked up in the section it points to. -/
theorem references_mean_members_of_the_section_consulted (document : Json) :
    ReadAsMeant document (consulting document) ∧
      (Straight document → ReadAsMeant document (pointing document)) :=
  ⟨readAsMeant fun _ _ _ _ => rfl, fun h => readAsMeant h.agree⟩

/-- A person with a home in the only section that the document has. -/
theorem references_mean_members_of_the_section_consulted_for_a_person :
    let home : Json := .object [("$ref", .text "#/definitions/City")]
    let document := person "#/definitions/City" [("definitions", .object [("City", city "City")])]
    Straight document ∧ ReadAsMeant document (pointing document) ∧
      ofDocument document = .ok (personModel "#/definitions/City" "City") ∧
      Reaches (pointing document) (.model document) home := by
  intro home document
  have hstraight : Straight document := by
    intro schema reference key hreaches href hkey
    rcases person_reaches rfl hreaches with rfl | rfl
    · cases href
      cases hkey
      rfl
    · cases href
  have hhome : LeadsTo (pointing document) (.model document) (.type ("home", home).2) :=
    .property rfl List.mem_cons_self
  exact ⟨hstraight, (references_mean_members_of_the_section_consulted document).2 hstraight,
    ofDocument_eq 10 fun _ => rfl, .single hhome⟩

/-- A reference may mean what stands under its name in the section that it does not point to, and be
reported as missing, although what it points to is there. -/
theorem a_reference_means_a_definition_that_it_does_not_point_to :
    (let document := person "#/definitions/City"
        [("$defs", .object [("City", city "Town")]),
          ("definitions", .object [("City", city "City")])]
      ∃ model, ofDocument document = .ok model ∧
        ¬ HasModel (pointing document) none document model) ∧
    (let document := person "#/definitions/City"
        [("$defs", .object [("Town", city "Town")]),
          ("definitions", .object [("City", city "City")])]
      ∃ e model, ofDocument document = .error e ∧ e.ReportsMissing ∧
        HasModel (pointing document) none document model) := by
  constructor
  · refine ⟨personModel "#/definitions/City" "Town", ofDocument_eq 10 fun _ => rfl, fun hmodel => ?_⟩
    have htypes := congrArg (fun model => model.fields.map fun field => field.declared.text)
      (hmodel.unique (hasModel_person _ rfl))
    exact absurd htypes (by decide)
  · refine ⟨SchemaFault.error ⟨.unknownDefinition "City" ["Town"], "Person.home"⟩, _,
      ofDocument_eq 10 fun _ => rfl, ?_, hasModel_person _ rfl⟩
    exact ⟨_, rfl⟩

end Schema

end Formwork
