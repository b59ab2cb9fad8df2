-- The references of a schema document. A definition refers to those that reading it needs: where its
-- properties, their variants and items lead, until a reference ends the way. A document that can be
-- read has no circle among the definitions that it leads to, and only a circle is reported as one.
import Mathlib.Logic.Relation
import Formwork.Proofs.Run
import Formwork.Proofs.Types.Rereading

namespace Formwork

/-! ## Reports of circles -/

/-- The error reports a reference to a definition that is being read. -/
def Error.ReportsCircle (e : Error) : Prop :=
  "Recursive schema reference ".toList <+: e.message.toList

theorem Error.message_withOwner (owner : String) (e : Error) :
    (e.withOwner owner).message = e.message := by
  unfold withOwner
  split <;> rfl

theorem SchemaFault.reportsCircle_iff {fault : SchemaFault} :
    fault.error.ReportsCircle ↔ fault.refusal.error.ReportsCircle := by
  unfold SchemaFault.error
  split
  · rw [Error.ReportsCircle, Error.message_withOwner, Error.ReportsCircle]
  · rfl

/-- Whether a refusal may be reported as a circle: one is, and one has the words of an enum that can
not be declared. -/
def SchemaRefusal.mayReportCircle : SchemaRefusal → Bool
  | .recursiveReference _ => true
  | .badEnum _ => true
  | _ => false

/-- All others are reported in other words. -/
theorem SchemaRefusal.not_reportsCircle {refusal : SchemaRefusal}
    (h : refusal.mayReportCircle = false) : ¬ refusal.error.ReportsCircle := by
  cases refusal with
  | recursiveReference => cases h
  | badEnum => cases h
  | _ => simp [Error.ReportsCircle, error, Error.message, Error.ofKind, toString]

theorem SchemaRefusal.mayReportCircle_of_form {refusal : SchemaRefusal}
    (h : refusal.isOfForm = true) : refusal.mayReportCircle = false := by
  cases refusal with
  | recursiveReference => cases h
  | badEnum => cases h
  | _ => rfl

/-- An enum that can not be declared is reported in other words, too. -/
theorem Error.IsOfEnum.not_reportsCircle {e : Error} (h : e.IsOfEnum) : ¬ e.ReportsCircle :=
  h.not_begins (by decide)

namespace Schema

open Relation

/-! ## The graph -/

mutual

/-- The record model of a schema needs a definition. -/
inductive ModelNeeds : Json → String → Prop where
  | property {schema : Json} {properties : Ordered Json} {property : String × Json} {name : String} :
    object? schema "properties" = some properties → property ∈ properties →
    TypeNeeds property.2 name → ModelNeeds schema name

/-- The type that a schema declares needs a definition. -/
inductive TypeNeeds : Json → String → Prop where
  | reference {schema : Json} {reference name : String} :
    text? schema "$ref" = some reference → referenced? reference = some name →
    TypeNeeds schema name
  | variant {schema variant : Json} {variants : List Json} {name : String} :
    text? schema "$ref" = none → variants? schema = some variants → variant ∈ variants →
    TypeNeeds variant name → TypeNeeds schema name
  | named {schema : Json} {type name : String} :
    text? schema "$ref" = none → variants? schema = none → type ∈ typeNames schema →
    NamedNeeds schema type name → TypeNeeds schema name
  | untyped {schema : Json} {name : String} :
    text? schema "$ref" = none → variants? schema = none → schema.get? "type" = none →
    ModelNeeds schema name → TypeNeeds schema name

/-- The type that a name gives a schema needs a definition. -/
inductive NamedNeeds : Json → String → String → Prop where
  | items {schema items : Json} {name : String} :
    schema.get? "items" = some items → TypeNeeds items name → NamedNeeds schema "array" name
  | object {schema : Json} {name : String} :
    ModelNeeds schema name → NamedNeeds schema "object" name

end

/-- A definition refers to the definitions that its record model needs. -/
def Refers (definitions : Option (Ordered Json)) (name other : String) : Prop :=
  ∃ target, definitions.bind (·.find? name) = some target ∧ ModelNeeds target other

/-- Among the definitions that the document leads to is one that leads back to itself. -/
def Circular (document : Json) : Prop :=
  ∃ first name, ModelNeeds document first ∧
    ReflTransGen (Refers (definitions? document)) first name ∧
    TransGen (Refers (definitions? document)) name name

section Graph

variable {definitions : Option (Ordered Json)} {visiting : List String} {name other : String}

/-- No way from the definition goes on for ever. -/
def Grounded (definitions : Option (Ordered Json)) (name : String) : Prop :=
  Acc (fun other name => Refers definitions name other) name

/-- The definition leads to one that is being read, or to one that leads back to itself. -/
def Returns (definitions : Option (Ordered Json)) (visiting : List String) (name : String) : Prop :=
  ∃ other, ReflTransGen (Refers definitions) name other ∧
    (other ∈ visiting ∨ TransGen (Refers definitions) other other)

theorem Grounded.no_circle (h : Grounded definitions name) :
    ¬ TransGen (Refers definitions) name name := by
  induction h with
  | intro name _ ih =>
    intro hcircle
    obtain ⟨other, hfirst, hrest⟩ := TransGen.head'_iff.1 hcircle
    exact ih other hfirst (.tail' hrest hfirst)

theorem Grounded.trans (h : Grounded definitions name)
    (hpath : ReflTransGen (Refers definitions) name other) : Grounded definitions other := by
  induction hpath with
  | refl => exact h
  | tail _ hlast ih => exact ih.inv hlast

/-- What leads back from inside a definition leads back from the definition. -/
theorem Returns.of_refers (hrefers : Refers definitions name other)
    (h : Returns definitions (name :: visiting) other) : Returns definitions visiting name := by
  obtain ⟨last, hpath, hlast⟩ := h
  rcases hlast with hlast | hcircle
  · rcases List.mem_cons.1 hlast with rfl | hlast
    · exact ⟨last, .refl, .inr (.head' hrefers hpath)⟩
    · exact ⟨last, .head hrefers hpath, .inl hlast⟩
  · exact ⟨last, .head hrefers hpath, .inr hcircle⟩

end Graph

/-! ## Needs by form -/

/-- What the type of a schema needs, by its form. -/
def FormNeeds (schema : Json) (name : String) : Form → Prop
  | .reference reference => referenced? reference = some name
  | .variants variants => ∃ variant ∈ variants, TypeNeeds variant name
  | .named type => NamedNeeds schema type name
  | .listed types => ∃ type ∈ types.filterMap Json.text?, NamedNeeds schema type name
  | .untyped => ModelNeeds schema name

/-- What the type of a name needs, by its form. -/
def NamedFormNeeds (schema : Json) (name : String) : NamedForm → Prop
  | .leaf _ => False
  | .items items => TypeNeeds items name
  | .record => ModelNeeds schema name

section Forms

variable {schema : Json} {property name : String}

theorem modelNeeds_iff {properties : Ordered Json}
    (hproperties : object? schema "properties" = some properties) :
    ModelNeeds schema name ↔ ∃ property ∈ properties, TypeNeeds property.2 name := by
  constructor
  · rintro ⟨hfound, hmem, hneeds⟩
    obtain rfl := Option.some.inj (hproperties.symm.trans hfound)
    exact ⟨_, hmem, hneeds⟩
  · rintro ⟨property, hmem, hneeds⟩
    exact .property hproperties hmem hneeds

theorem typeNeeds_iff {form : Form} (hform : form? schema = some form) :
    TypeNeeds schema name ↔ FormNeeds schema name form := by
  constructor
  · intro h
    cases h with
    | reference href hname =>
      rw [form?_reference_iff.2 href] at hform
      cases hform
      exact hname
    | variant href hvariants hmem h =>
      rw [form?, href, hvariants] at hform
      cases hform
      exact ⟨_, hmem, h⟩
    | named href hvariants hmem h =>
      rcases form?_of_typeNames href hvariants hmem with hnamed | ⟨types, hlisted, hmem⟩
      · rw [hnamed] at hform
        cases hform
        exact h
      · rw [hlisted] at hform
        cases hform
        exact ⟨_, hmem, h⟩
    | untyped href hvariants htype h =>
      rw [form?, href, hvariants, htype] at hform
      cases hform
      exact h
  · intro h
    have hkeywords := form?_keywords hform
    cases form with
    | reference => exact .reference hkeywords h
    | variants =>
      obtain ⟨variant, hmem, h⟩ := h
      exact .variant hkeywords.1 hkeywords.2 hmem h
    | named type =>
      obtain ⟨href, hvariants, htype⟩ := hkeywords
      exact .named href hvariants (by simp [typeNames, htype]) h
    | listed types =>
      obtain ⟨href, hvariants, htypes⟩ := hkeywords
      obtain ⟨type, hmem, h⟩ := h
      exact .named href hvariants (by simpa [typeNames, htypes] using hmem) h
    | untyped =>
      obtain ⟨href, hvariants, htype⟩ := hkeywords
      exact .untyped href hvariants htype h

theorem namedNeeds_iff {type : String} {form : NamedForm}
    (hform : namedForm schema property type = .ok form) :
    NamedNeeds schema type name ↔ NamedFormNeeds schema name form := by
  constructor
  · intro h
    cases h with
    | items hitems h =>
      simp only [namedForm, hitems] at hform
      cases hform
      exact h
    | object h =>
      cases hform
      exact h
  · intro h
    have hmembers := namedForm_ok hform
    cases form with
    | leaf => cases h
    | items =>
      obtain ⟨rfl, hitems⟩ := hmembers
      exact .items hitems h
    | record =>
      obtain rfl := hmembers
      exact .object h

end Forms

/-! ## Attempts -/

/-- Whatever the attempt comes to is as said: a result `ok`, and a fault `bad`. -/
structure Meets {α : Type} (attempt : Attempt α) (ok : α → Prop) (bad : SchemaFault → Prop) :
    Prop where
  ok : ∀ a, attempt.run = some (.ok a) → ok a
  bad : ∀ fault, attempt.run = some (.error fault) → bad fault

section Rules

variable {α β : Type} {attempt : Attempt α} {ok ok' : α → Prop} {bad bad' : SchemaFault → Prop}

theorem meets_stopped : Meets (.stopped : Attempt α) ok bad := ⟨nofun, nofun⟩

theorem meets_ended {outcome : Except SchemaFault α} (hok : ∀ a, outcome = .ok a → ok a)
    (hbad : ∀ fault, outcome = .error fault → bad fault) : Meets (.ended outcome) ok bad :=
  ⟨fun a ha => hok a (Option.some.inj ha), fun fault hf => hbad fault (Option.some.inj hf)⟩

theorem meets_pure {a : α} (h : ok a) : Meets (pure a) ok bad := by
  refine meets_ended (fun b hb => ?_) nofun
  cases hb
  exact h

theorem meets_refuse {refusal : SchemaRefusal} (h : bad ⟨refusal, none⟩) :
    Meets (.refuse refusal : Attempt α) ok bad := by
  refine meets_ended nofun fun fault hf => ?_
  cases hf
  exact h

theorem Meets.imp (h : Meets attempt ok bad) (hok : ∀ a, ok a → ok' a)
    (hbad : ∀ fault, bad fault → bad' fault) : Meets attempt ok' bad' :=
  ⟨fun a ha => hok a (h.ok a ha), fun fault hf => hbad fault (h.bad fault hf)⟩

theorem Meets.weaken (h : Meets attempt ok bad) (hbad : ∀ fault, bad fault → bad' fault) :
    Meets attempt ok bad' :=
  h.imp (fun _ => id) hbad

theorem Meets.bind {next : α → Attempt β} {ok' : β → Prop} (h : Meets attempt ok bad)
    (hnext : ∀ a, ok a → Meets (next a) ok' bad) : Meets (attempt >>= next) ok' bad := by
  have hrun := ExceptT.run_bind attempt next
  rcases hattempt : attempt.run with _ | fault | a <;> rw [hattempt] at hrun
  · exact ⟨fun _ hb => (nomatch hrun.symm.trans hb), fun _ hf => (nomatch hrun.symm.trans hf)⟩
  · refine ⟨fun _ hb => (nomatch hrun.symm.trans hb), fun fault' hf => ?_⟩
    obtain rfl := Except.error.inj (Option.some.inj (hrun.symm.trans hf))
    exact h.bad fault hattempt
  · have hrest := hnext a (h.ok a hattempt)
    exact ⟨fun b hb => hrest.ok b (hrun.symm.trans hb),
      fun fault hf => hrest.bad fault (hrun.symm.trans hf)⟩

theorem Meets.map {f : α → β} {ok' : β → Prop} (h : Meets attempt ok bad)
    (hok : ∀ a, ok a → ok' (f a)) : Meets (do return f (← attempt)) ok' bad :=
  h.bind fun a ha => meets_pure (hok a ha)

theorem Meets.within (place : String) (h : Meets attempt ok bad)
    (hbad : ∀ fault, bad fault → bad (fault.placed place)) : Meets (attempt.within place) ok bad := by
  have hrun : (attempt.within place).run =
    attempt.run.map (Except.mapError (SchemaFault.placed place)) := rfl
  rcases hattempt : attempt.run with _ | fault | a <;> rw [hattempt] at hrun
  · exact ⟨fun _ ha => (nomatch hrun.symm.trans ha), fun _ hf => (nomatch hrun.symm.trans hf)⟩
  · refine ⟨fun _ ha => (nomatch hrun.symm.trans ha), fun fault' hf => ?_⟩
    obtain rfl := Except.error.inj (Option.some.inj (hrun.symm.trans hf))
    exact hbad fault (h.bad fault hattempt)
  · refine ⟨fun a' ha => ?_, fun _ hf => (nomatch hrun.symm.trans hf)⟩
    obtain rfl := Except.ok.inj (Option.some.inj (hrun.symm.trans ha))
    exact h.ok a hattempt

end Rules

/-! ## Following references -/

/-- What a reading says of the definitions that it needs. If it has a result, no way from them goes
on for ever. If it reports a circle, one of them leads to a definition that is being read, or to a
circle. -/
def Follows {α : Type} (definitions : Option (Ordered Json)) (visiting : List String)
    (needs : String → Prop) (attempt : Attempt α) : Prop :=
  Meets attempt (fun _ => ∀ name, needs name → Grounded definitions name)
    fun fault => fault.refusal.error.ReportsCircle →
      ∃ name, needs name ∧ Returns definitions visiting name

section Rules

variable {definitions : Option (Ordered Json)} {visiting : List String} {α β : Type}
  {needs needs' : String → Prop} {attempt : Attempt α}

theorem Follows.congr (h : Follows definitions visiting needs attempt)
    (hneeds : ∀ name, needs' name ↔ needs name) :
    Follows definitions visiting needs' attempt := by
  rwa [funext fun name => propext (hneeds name)]

theorem follows_pure {a : α} (hneeds : ∀ name, ¬ needs name) :
    Follows definitions visiting needs (pure a) :=
  meets_pure fun name hname => (hneeds name hname).elim

theorem follows_refuse {refusal : SchemaRefusal} (h : refusal.isOfForm = true) :
    Follows definitions visiting needs (.refuse refusal : Attempt α) :=
  meets_refuse fun hcircle =>
    absurd hcircle (SchemaRefusal.not_reportsCircle (SchemaRefusal.mayReportCircle_of_form h))

/-- One reading after the other needs what the two need. -/
theorem Follows.bind {next : α → Attempt β} {more : String → Prop}
    (h : Follows definitions visiting needs attempt)
    (hnext : ∀ a, Follows definitions visiting more (next a)) :
    Follows definitions visiting (fun name => needs name ∨ more name) (attempt >>= next) := by
  have hfirst : Meets attempt (fun _ => ∀ name, needs name → Grounded definitions name)
      fun fault => fault.refusal.error.ReportsCircle →
        ∃ name, (needs name ∨ more name) ∧ Returns definitions visiting name :=
    Meets.weaken h fun _ hfault hcircle => (hfault hcircle).imp fun _ => And.imp_left .inl
  refine hfirst.bind fun a hgrounded => Meets.imp (hnext a) ?_ ?_
  · exact fun _ hmore name hname => hname.elim (hgrounded name) (hmore name)
  · exact fun _ hfault hcircle => (hfault hcircle).imp fun _ => And.imp_left .inr

theorem Follows.map (f : α → β) (h : Follows definitions visiting needs attempt) :
    Follows definitions visiting needs (do return f (← attempt)) :=
  Meets.map h fun _ => id

theorem Follows.within (place : String) (h : Follows definitions visiting needs attempt) :
    Follows definitions visiting needs (attempt.within place) :=
  Meets.within place h fun _ => id

end Rules

section Readings

variable {definitions : Option (Ordered Json)} {visiting : List String} {schema : Json}
  {property : String}

/-- A definition is refused in such words only if it is being read. -/
theorem mem_of_definition_circle {reference name : String} {refusal : SchemaRefusal}
    (h : definition definitions visiting reference name = .error refusal)
    (hcircle : refusal.error.ReportsCircle) : name ∈ visiting := by
  unfold definition at h
  split at h
  · rename_i hvisiting
    exact List.contains_iff_mem.1 hvisiting
  · exfalso
    split at h
    · cases h
      exact SchemaRefusal.not_reportsCircle rfl hcircle
    · split at h
      · cases h
      · cases h
        exact SchemaRefusal.not_reportsCircle rfl hcircle

/-- A reference needs its definition, and nothing else. -/
theorem follows_reference {fuel : Nat} {reference : String}
    (h : ∀ name target, Follows definitions (name :: visiting) (ModelNeeds target)
      (rereadModel definitions fuel (name :: visiting) target (some name))) :
    Follows definitions visiting (fun name => referenced? reference = some name)
      (rereadReference definitions fuel visiting reference) := by
  unfold rereadReference
  rcases referenced? reference with _ | name
  · exact follows_refuse rfl
  simp only
  rcases hdefinition : definition definitions visiting reference name with refusal | target
  · exact meets_refuse fun hcircle =>
      ⟨name, rfl, name, .refl, .inl (mem_of_definition_circle hdefinition hcircle)⟩
  · obtain ⟨hvisiting, hfound⟩ := definition_ok_iff.1 hdefinition
    refine Meets.imp ((h name target).map DeclaredType.model) ?_ ?_
    · rintro _ hgrounded _ ⟨⟩
      refine .intro _ fun other ⟨target', hfound', hneeds⟩ => ?_
      obtain rfl := Option.some.inj (hfound.symm.trans hfound')
      exact hgrounded other hneeds
    · intro fault hfault hcircle
      obtain ⟨other, hneeds, hreturns⟩ := hfault hcircle
      exact ⟨name, rfl, hreturns.of_refers ⟨target, hfound, hneeds⟩⟩

theorem follows_leaf {type : String} {reading : Reading DeclaredType}
    {needs : String → Prop} (hleaf : leaf? schema property type = some reading)
    (hneeds : ∀ name, ¬ needs name) :
    Follows definitions visiting needs (.ofReading reading) := by
  refine meets_ended (fun _ _ name hname => (hneeds name hname).elim) fun fault hf hcircle => ?_
  obtain ⟨cause, hrefusal, henum⟩ := leaf_fault hleaf hf
  rw [hrefusal] at hcircle
  exact absurd hcircle henum.not_reportsCircle

end Readings

mutual

/-- Reading a record model anew follows the references that it needs. -/
theorem follows_model (definitions : Option (Ordered Json)) : ∀ (fuel : Nat)
    (visiting : List String) (schema : Json) (fallback : Option String),
    Follows definitions visiting (ModelNeeds schema)
      (rereadModel definitions fuel visiting schema fallback)
  | 0, _, _, _ => meets_stopped
  | fuel + 1, visiting, schema, fallback => by
    rw [rereadModel_eq]
    rcases hform : modelForm schema fallback with refusal | ⟨name, properties⟩
    · exact follows_refuse (isOfForm_modelForm hform)
    · exact ((follows_properties definitions fuel ..).map _).congr fun _ =>
        modelNeeds_iff (modelForm_ok hform).2

/-- Reading properties anew follows the references that one of them needs. -/
theorem follows_properties (definitions : Option (Ordered Json)) : ∀ (fuel : Nat)
    (visiting : List String) (model : String) (required : List String)
    (properties : List (String × Json)),
    Follows definitions visiting (fun name => ∃ property ∈ properties, TypeNeeds property.2 name)
      (rereadProperties definitions fuel visiting model required properties)
  | 0, _, _, _, _ => meets_stopped
  | _ + 1, _, _, _, [] => follows_pure fun _ ⟨_, hmem, _⟩ => nomatch hmem
  | fuel + 1, visiting, model, required, (key, schema) :: rest => by
    rw [rereadProperties_cons]
    refine (((follows_type definitions fuel visiting schema key).within _).bind fun _ =>
      (follows_properties definitions fuel visiting model required rest).map _).congr fun name => ?_
    simp only [List.mem_cons, or_and_right, exists_or, exists_eq_left]

/-- Reading a type anew follows the references that it needs, whatever its form. -/
theorem follows_type (definitions : Option (Ordered Json)) : ∀ (fuel : Nat)
    (visiting : List String) (schema : Json) (property : String),
    Follows definitions visiting (TypeNeeds schema)
      (rereadType definitions fuel visiting schema property)
  | 0, _, _, _ => meets_stopped
  | fuel + 1, visiting, schema, property => by
    rw [rereadType_eq]
    rcases hform : typeForm schema property with refusal | form
    · exact follows_refuse (isOfForm_typeForm hform)
    refine .congr ?_ fun _ => typeNeeds_iff (typeForm_ok hform)
    cases form with
    | reference => exact follows_reference fun name target => follows_model definitions fuel ..
    | variants => exact (follows_variants definitions fuel ..).map _
    | named => exact (follows_named definitions fuel ..).map _
    | listed => exact (follows_types definitions fuel ..).map _
    | untyped => exact (follows_model definitions fuel ..).map _

/-- Reading variants anew follows the references that one of them needs. -/
theorem follows_variants (definitions : Option (Ordered Json)) : ∀ (fuel : Nat)
    (visiting : List String) (property : String) (variants : List Json),
    Follows definitions visiting (fun name => ∃ variant ∈ variants, TypeNeeds variant name)
      (rereadVariants definitions fuel visiting property variants)
  | 0, _, _, _ => meets_stopped
  | _ + 1, _, _, [] => follows_pure fun _ ⟨_, hmem, _⟩ => nomatch hmem
  | fuel + 1, visiting, property, variant :: rest => by
    rw [rereadVariants]
    refine ((follows_type definitions fuel visiting variant property).bind fun _ =>
      (follows_variants definitions fuel visiting property rest).map _).congr fun name => ?_
    simp only [List.mem_cons, or_and_right, exists_or, exists_eq_left]

/-- Reading a list of names anew follows the references that the type of one of them needs. -/
theorem follows_types (definitions : Option (Ordered Json)) : ∀ (fuel : Nat)
    (visiting : List String) (schema : Json) (property : String) (types : List Json),
    Follows definitions visiting
      (fun name => ∃ type ∈ types.filterMap Json.text?, NamedNeeds schema type name)
      (rereadTypes definitions fuel visiting schema property types)
  | 0, _, _, _, _ => meets_stopped
  | _ + 1, _, _, _, [] => follows_pure fun _ ⟨_, hmem, _⟩ => nomatch hmem
  | fuel + 1, visiting, schema, property, type :: rest => by
    cases type with
    | text type =>
      rw [rereadTypes]
      refine ((follows_named definitions fuel visiting schema property type).bind fun _ =>
        (follows_types definitions fuel visiting schema property rest).map _).congr fun name => ?_
      simp only [List.filterMap_cons, Json.text?, List.mem_cons, or_and_right, exists_or,
        exists_eq_left]
    | _ =>
      rw [rereadTypes]
      · exact follows_refuse rfl
      · nofun

/-- Reading the type of a name anew follows the references that it needs. -/
theorem follows_named (definitions : Option (Ordered Json)) : ∀ (fuel : Nat)
    (visiting : List String) (schema : Json) (property type : String),
    Follows definitions visiting (NamedNeeds schema type)
      (rereadNamed definitions fuel visiting schema property type)
  | 0, _, _, _, _ => meets_stopped
  | fuel + 1, visiting, schema, property, type => by
    rw [rereadNamed_eq]
    rcases hform : namedForm schema property type with refusal | form
    · exact follows_refuse (isOfForm_namedForm hform)
    refine .congr ?_ fun _ => namedNeeds_iff hform
    cases form with
    | leaf => exact follows_leaf (namedForm_ok hform) fun _ => id
    | items => exact (follows_type definitions fuel ..).map _
    | record => exact (follows_model definitions fuel ..).map _

end

section Documents

variable {fuel : Nat} {document : Json}

theorem rereadDocument_ok_iff {model : RecordModel} :
    rereadDocument fuel document = some (.ok model) ↔
      (rereadModel (definitions? document) fuel [] document none).run = some (.ok model) := by
  unfold rereadDocument
  rcases (rereadModel (definitions? document) fuel [] document none).run with _ | _ | _ <;>
    simp [except_mapError_ok, except_mapError_error]

theorem rereadDocument_error_iff {e : Error} :
    rereadDocument fuel document = some (.error e) ↔ ∃ fault : SchemaFault,
      (rereadModel (definitions? document) fuel [] document none).run = some (.error fault) ∧
        fault.error = e := by
  unfold rereadDocument
  rcases (rereadModel (definitions? document) fuel [] document none).run with _ | _ | _ <;>
    simp [except_mapError_ok, except_mapError_error]

end Documents

/-! ## The law -/

/-- Every document is read to an end, whether references are read once or anew each time, and with
the same outcome: with enough steps a reading that remembers no definition, and knows only those that
are being read, gives the record model or the error that reading the document gives. If there is a
model, no definition that the document leads to leads back to itself. An error that reports a
recursive reference is given only if one does. -/
theorem references_are_read_once (document : Json) :
    (∃ depth, ∀ fuel, depth ≤ fuel →
      rereadDocument fuel document = some (ofDocument document)) ∧
    (∀ model, ofDocument document = .ok model → ¬ Circular document) ∧
    (∀ e, ofDocument document = .error e → e.ReportsCircle → Circular document) := by
  obtain ⟨depth, hdepth⟩ := rereadDocument_settles document
  have hread := hdepth depth (Nat.le_refl depth)
  have hfollows := follows_model (definitions? document) depth [] document none
  refine ⟨⟨depth, hdepth⟩, fun model hmodel => ?_, fun e he hcircle => ?_⟩
  · rintro ⟨first, name, hneeds, hpath, hname⟩
    have hrun := rereadDocument_ok_iff.1 (hread.trans (congrArg some hmodel))
    exact ((hfollows.ok model hrun first hneeds).trans hpath).no_circle hname
  · obtain ⟨fault, hrun, rfl⟩ := rereadDocument_error_iff.1 (hread.trans (congrArg some he))
    obtain ⟨first, hneeds, name, hpath, hname⟩ := hfollows.bad fault hrun
      (SchemaFault.reportsCircle_iff.1 hcircle)
    exact ⟨first, name, hneeds, hpath, hname.resolve_left List.not_mem_nil⟩

/-- A node with a next one, which is a node again. -/
def nodes : Json :=
  let next : Json := .object [("next", .object [("$ref", .text "#/$defs/Node")])]
  .object [("title", .text "Node"), ("properties", next),
    ("$defs", .object [("Node", .object [("properties", next)])])]

example : (rereadDocument 8 nodes).map (fun outcome => match outcome with
    | .error e => e.text
    | .ok model => model.name) = some ("Setup type error: Node.next => "
      ++ "Recursive schema reference #/$defs/Node") := by decide +kernel

end Schema

end Formwork
