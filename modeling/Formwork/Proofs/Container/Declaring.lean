-- What can be declared. Fields, models, checks, components and containers are put together by their
-- builders, from expressions of which something is said: that they were never set up, for one.
-- Whatever comes out is well-made: what was said holds of all its expressions, and its names were
-- checked, but for the names that fields take from their binds.
import Formwork.Proofs.Component.Laying
import Formwork.Proofs.Container.Readiness

namespace Formwork

variable (E : Expression → Prop)

/-! ## Built -/

/-- The expressions of the choices of a kind of field, and of their attributes. -/
def FieldKind.expressions (kind : FieldKind) : List Expression :=
  kind.choices?.toList.flatMap fun spec => spec.choices.expressions ++ spec.attributes

/-- The field is built, from expressions in `E`. -/
inductive Field.Built : Field → Prop where
  | ofKind {bind : Expression} {kind : FieldKind} {f : Field} : E bind →
    (∀ e ∈ kind.expressions, E e) → Field.ofKind bind kind = .ok f → Built f
  | withName {f f' : Field} {name : String} : Built f → f.withName name = .ok f' → Built f'
  | withType {f f' : Field} {type : FieldType} : Built f → f.withType type = .ok f' → Built f'
  | withEnum {f f' : Field} {e : EnumType} : Built f → f.withEnum e = .ok f' → Built f'
  | withChoiceValue {f f' : Field} {value : Expression} : Built f → E value →
    f.withChoiceValue value = .ok f' → Built f'
  | withChoiceLabel {f f' : Field} {label : Expression} : Built f → E label →
    f.withChoiceLabel label = .ok f' → Built f'
  | withDefault {f f' : Field} {default : Operand} : Built f → (∀ e ∈ default.expressions, E e) →
    f.withDefault default = .ok f' → Built f'
  | withConditions {f : Field} {required editable available : Option Operand} : Built f →
    (∀ o ∈ required.toList ++ editable.toList ++ available.toList, ∀ e ∈ o.expressions, E e) →
    Built { f with required, editable, available }

/-- The model is built, from expressions in `E`. -/
inductive BoundModel.Built : BoundModel → Prop where
  | ofType {name : String} {declared : DeclaredType} {m : BoundModel} :
    BoundModel.ofType name declared = .ok m → Built m
  | ofExpression {name : String} {e : Expression} {m : BoundModel} : E e →
    BoundModel.ofExpression name e = .ok m → Built m
  | ofHandlers {name : String} {load save : Handler} {m : BoundModel} :
    (∀ entry ∈ load.inject ++ save.inject, E entry.2) →
    BoundModel.ofHandlers name load save = .ok m → Built m

/-- The model is built, and so are those nested in it. -/
inductive ModelTree.Built : ModelTree → Prop where
  | node {m : BoundModel} {nested : List ModelTree} : m.Built E → (∀ tree ∈ nested, Built tree) →
    Built (.node m nested)

/-- The rule is built, from expressions in `E`. -/
inductive Validation.Built : Validation → Prop where
  | ofExpression {name message : String} {ensure : Expression} {v : Validation}
    {available : Option Operand} : E ensure → (∀ o ∈ available.toList, ∀ e ∈ o.expressions, E e) →
    Validation.ofExpression name ensure message = .ok v → Built { v with available }

/-- The named value is built, from expressions in `E`. -/
inductive DataVar.Built : DataVar → Prop where
  | ofSource {name : String} {source : DataSource} {d : DataVar} :
    (∀ e ∈ source.expressions, E e) → DataVar.ofSource name source = .ok d → Built d

/-- The check is built. -/
inductive CardinalityCheck.Built : CardinalityCheck → Prop where
  | ofRule (rule : Cardinality) : Built (.ofRule rule)
  | withName {check check' : CardinalityCheck} {name : String} : Built check →
    check.withName name = .ok check' → Built check'

/-- The check is built. -/
inductive UniqueCheck.Built : UniqueCheck → Prop where
  | ofFields {scope : UniqueScope} {fields : List String} {check : UniqueCheck} :
    UniqueCheck.ofFields scope fields = .ok check → Built check
  | withName {check check' : UniqueCheck} {name : String} : Built check →
    check.withName name = .ok check' → Built check'
  | strict {check : UniqueCheck} : Built check → Built check.strict

mutual

/-- The component is built, from expressions in `E`. -/
inductive Component.Built : Component → Prop where
  | field {f : Field} {rules : List Validation} {enables : List Component} : f.Built E →
    (∀ rule ∈ rules, rule.Built E) → (∀ component ∈ enables, Component.Built component) →
    Component.Built (.ofField f rules enables)
  | group {name : String} {g : Group} {available : Option Operand} {contents : List Component}
    {rules : List Validation} : Group.named name = .ok g →
    (∀ o ∈ available.toList, ∀ e ∈ o.expressions, E e) →
    (∀ component ∈ contents, Component.Built component) → (∀ rule ∈ rules, rule.Built E) →
    Component.Built (.ofGroup { g with available } contents rules)
  | dataVar {d : DataVar} : d.Built E → Component.Built (.leaf (.dataVar d))
  | validation {rule : Validation} : rule.Built E → Component.Built (.ofValidation rule)
  | model {model : ModelTree} : model.Built E → Component.Built (.ofModel model)
  | extension {c : Container} : Container.Built c → Component.Built (.leaf (.extension c))
  | cardinality {check : CardinalityCheck} : check.Built →
    Component.Built (.leaf (.cardinality check))
  | unique {check : UniqueCheck} : check.Built → Component.Built (.leaf (.unique check))

/-- The container is built, from expressions in `E`, and nobody has set it up. -/
inductive Container.Built : Container → Prop where
  | ruleSet {name : String} {model : ModelTree} {c : Container} : model.Built E →
    Container.ruleSet name model = .ok c → Container.Built c
  | extension {name : String} {model : ModelTree} {check : CardinalityCheck} {c : Container} :
    model.Built E → check.Built → Container.extension name model check = .ok c → Container.Built c
  | withConfig {c : Container} (config : Config) : Container.Built c →
    Container.Built (c.withConfig config)
  | withUnique {c : Container} {check : UniqueCheck} : Container.Built c → check.Built →
    Container.Built (c.withUnique check)
  | declaring {c : Container} {contents : List Component} {providers : List DataVar}
    {rules : List Validation} : Container.Built c →
    (∀ component ∈ contents, Component.Built component) →
    (∀ d ∈ providers, d.Built E) → (∀ rule ∈ rules, rule.Built E) →
    Container.Built (c.declaring contents providers rules)
  | addGroup {c c' : Container} {name : String} {g : Group} {available : Option Operand}
    {contents : List Component} {rules : List Validation} : Container.Built c →
    Group.named name = .ok g → (∀ o ∈ available.toList, ∀ e ∈ o.expressions, E e) →
    (∀ component ∈ contents, Component.Built component) → (∀ rule ∈ rules, rule.Built E) →
    c.addGroup { g with available } contents rules = .ok c' → Container.Built c'

end

/-! ## Well-made -/

/-- The expression that leads to a model, for a part that is one. -/
def Part.leads : Part → List Expression
  | .model m => m.source.leads
  | _ => []

/-- The declared name, if there is one, is an identifier, or is what a field takes from its bind. -/
def Part.Labelled (part : Part) : Prop :=
  ∀ name, part.declaredName? = some name →
    isIdentifier name ∨ ∃ f, part = .field f ∧ Field.nameOfBind f.bind = .ok name

/-- The part is labelled, and all its expressions are in `E`. -/
structure Part.WellMade (part : Part) : Prop where
  labelled : part.Labelled
  expressions : ∀ e ∈ part.expressions, E e
  attributes : ∀ e ∈ part.attributes, E e
  leads : ∀ e ∈ part.leads, E e

/-- The container is declared under an identifier, with well-made parts, and notes its main model. So
are the extensions declared inside it, which nobody has taken over. -/
inductive Container.WellMade : Container → Prop where
  | declared {p : Profile} {model : ModelTree} {contents : List Component}
    {providers : List DataVar} {rules : List Validation} : isIdentifier p.name →
    p.mainModel = model.model.name →
    (∀ m ∈ model.all, (Part.model m).WellMade E) → (∀ own ∈ p.checks, own.WellMade E) →
    (∀ owner, ∀ entry ∈ Component.preorderAll owner contents, entry.2.WellMade E) →
    (∀ owner, ∀ entry ∈ Component.preorderAll owner contents, ∀ inner,
      entry.2 = .extension inner → WellMade inner) →
    (∀ owner, ∀ entry ∈ Component.preorderAll owner contents, ∀ inner,
      entry.2 = .extension inner → inner.Unowned) →
    (∀ d ∈ providers, (Part.dataVar d).WellMade E) →
    (∀ rule ∈ rules, (Part.validation rule).WellMade E) →
    WellMade (.mk p (.declared model contents providers rules))

variable {E}

/-! ## Parts -/

/-- A part with an identifier for a name needs only its expressions looked at. -/
theorem Part.WellMade.ofName {part : Part} {name : String} (hname : part.declaredName? = some name)
    (hidentifier : isIdentifier name) (he : ∀ e ∈ part.expressions, E e)
    (ha : ∀ e ∈ part.attributes, E e) (hl : ∀ e ∈ part.leads, E e) : part.WellMade E := by
  refine ⟨fun other hother => .inl ?_, he, ha, hl⟩
  rw [hname] at hother
  cases hother
  exact hidentifier

/-- What the builders keep of a field: the name is an identifier or is taken from the bind, and all
expressions are in `E`. -/
structure Field.WellMade (E : Expression → Prop) (f : Field) : Prop where
  named : isIdentifier f.name ∨ nameOfBind f.bind = .ok f.name
  bind : E f.bind
  conditions : ∀ o ∈ f.required.toList ++ f.editable.toList ++ f.available.toList,
    ∀ e ∈ o.expressions, E e
  default : ∀ o ∈ f.default.toList, ∀ e ∈ o.expressions, E e
  kind : ∀ e ∈ f.kind.expressions, E e

/-- Changing the choices keeps a field well-made if the new ones are in `E`. -/
theorem Field.WellMade.withChoice {f f' : Field} {update : ChoiceSpec → ChoiceSpec}
    (hf : f.WellMade E) (hupdate : ∀ spec, (∀ e ∈ (FieldKind.choice spec).expressions, E e) →
      ∀ e ∈ (FieldKind.choice (update spec)).expressions, E e)
    (h : f.withChoice update = .ok f') : f'.WellMade E := by
  obtain ⟨hnamed, hbind, hconditions, hdefault, hkind⟩ := hf
  unfold Field.withChoice at h
  split at h
  · rename_i spec hspec
    cases h
    rw [hspec] at hkind
    exact ⟨hnamed, hbind, hconditions, hdefault, hupdate spec hkind⟩
  · cases h

theorem FieldKind.forall_mem_expressions_choice {spec : ChoiceSpec} :
    (∀ e ∈ (FieldKind.choice spec).expressions, E e) ↔ (∀ e ∈ spec.choices.expressions, E e) ∧
      (∀ e ∈ spec.value, E e) ∧ ∀ e ∈ spec.label, E e := by
  simp [FieldKind.expressions, FieldKind.choices?, ChoiceSpec.attributes, or_imp, forall_and]

theorem Field.Built.wellMade {f : Field} (hf : f.Built E) : f.WellMade E := by
  induction hf with
  | @ofKind bind kind f hbind hkind h =>
    obtain ⟨name, hname, h⟩ := except_bind_ok h
    cases h
    exact ⟨.inr hname, hbind, List.forall_mem_nil _, List.forall_mem_nil _, hkind⟩
  | @withName f f' name _ h ih =>
    obtain ⟨_, hname, h⟩ := except_bind_ok h
    cases h
    exact ⟨.inl (checkIdentifier_ok hname), ih.bind, ih.conditions, ih.default, ih.kind⟩
  | @withType f f' type _ h ih =>
    unfold Field.withType at h
    split at h <;> cases h
    exact ⟨ih.named, ih.bind, ih.conditions, ih.default, ih.kind⟩
  | @withEnum f f' e _ h ih =>
    unfold Field.withEnum at h
    split at h <;> cases h
    exact ⟨ih.named, ih.bind, ih.conditions, ih.default, List.forall_mem_nil _⟩
  | withChoiceValue _ hvalue h ih =>
    refine ih.withChoice (fun spec hspec => ?_) h
    obtain ⟨hchoices, _, hlabel⟩ := FieldKind.forall_mem_expressions_choice.1 hspec
    refine FieldKind.forall_mem_expressions_choice.2 ⟨hchoices, ?_, hlabel⟩
    rintro _ ⟨⟩
    exact hvalue
  | withChoiceLabel _ hlabel h ih =>
    refine ih.withChoice (fun spec hspec => ?_) h
    obtain ⟨hchoices, hvalue, _⟩ := FieldKind.forall_mem_expressions_choice.1 hspec
    refine FieldKind.forall_mem_expressions_choice.2 ⟨hchoices, hvalue, ?_⟩
    rintro _ ⟨⟩
    exact hlabel
  | @withDefault f f' default _ hdefault h ih =>
    unfold Field.withDefault at h
    split at h <;> cases h <;>
      exact ⟨ih.named, ih.bind, ih.conditions, List.forall_mem_singleton.2 hdefault, ih.kind⟩
  | withConditions _ hconditions ih =>
    exact ⟨ih.named, ih.bind, hconditions, ih.default, ih.kind⟩

theorem Field.Built.part {f : Field} (hf : f.Built E) : (Part.field f).WellMade E := by
  obtain ⟨hnamed, hbind, hconditions, hdefault, hkind⟩ := hf.wellMade
  simp only [List.forall_mem_append] at hconditions
  obtain ⟨⟨hrequired, heditable⟩, havailable⟩ := hconditions
  have hchoices : ∀ spec, f.kind.choices? = some spec →
      ∀ e ∈ spec.choices.expressions ++ spec.attributes, E e := by
    intro spec hspec e he
    unfold FieldKind.expressions at hkind
    rw [hspec, Option.toList_some, List.flatMap_singleton] at hkind
    exact hkind e he
  refine ⟨?_, ?_, fun e he => ?_, List.forall_mem_nil _⟩
  · rintro _ ⟨⟩
    exact hnamed.imp_right fun h => ⟨f, rfl, h⟩
  · simp only [Part.expressions, Field.expressions, List.forall_mem_append, List.forall_mem_flatMap]
    refine ⟨⟨⟨⟨⟨List.forall_mem_singleton.2 hbind, hrequired⟩, heditable⟩, havailable⟩, hdefault⟩,
      fun spec hspec e he => ?_⟩
    exact hchoices spec (Option.mem_toList.1 hspec) e (List.mem_append_left _ he)
  · obtain ⟨spec, hspec, he⟩ := List.mem_flatMap.1 he
    exact hchoices spec (Option.mem_toList.1 hspec) e (List.mem_append_right _ he)

theorem BoundModel.Built.part {m : BoundModel} (hm : m.Built E) : (Part.model m).WellMade E := by
  cases hm with
  | @ofType name declared _ h =>
    refine .ofName rfl (isIdentifier_name (.inl ⟨declared, h⟩)) ?_ (List.forall_mem_nil _) ?_
    all_goals
      obtain ⟨_, _, h⟩ := except_bind_ok h
      cases h
      exact List.forall_mem_nil _
  | @ofExpression name e _ he h =>
    refine .ofName rfl (isIdentifier_name (.inr (.inl ⟨e, h⟩))) ?_ (List.forall_mem_nil _) ?_
    all_goals
      obtain ⟨_, _, h⟩ := except_bind_ok h
      cases h
    · exact List.forall_mem_nil _
    · exact List.forall_mem_singleton.2 he
  | @ofHandlers name load save _ hinject h =>
    refine .ofName rfl (isIdentifier_name (.inr (.inr ⟨load, save, h⟩))) ?_ (List.forall_mem_nil _)
      ?_
    all_goals
      obtain ⟨_, _, h⟩ := except_bind_ok h
      obtain ⟨_, _, h⟩ := except_bind_ok h
      cases h
    · simp only [Part.expressions, ModelSource.injected, ← List.map_append]
      exact List.forall_mem_map.2 hinject
    · exact List.forall_mem_nil _

theorem ModelTree.forall_mem_allOf {P : BoundModel → Prop} {models : List ModelTree}
    (h : ∀ tree ∈ models, ∀ m ∈ tree.all, P m) : ∀ m ∈ allOf models, P m := by
  induction models with
  | nil => exact List.forall_mem_nil _
  | cons tree rest ih =>
    obtain ⟨hfirst, hrest⟩ := List.forall_mem_cons.1 h
    exact List.forall_mem_append.2 ⟨hfirst, ih hrest⟩

theorem ModelTree.Built.parts {tree : ModelTree} (h : tree.Built E) :
    ∀ m ∈ tree.all, (Part.model m).WellMade E := by
  induction h with
  | node hm _ ih => exact List.forall_mem_cons.2 ⟨hm.part, forall_mem_allOf ih⟩

theorem Validation.Built.part {rule : Validation} (hrule : rule.Built E) :
    (Part.validation rule).WellMade E := by
  obtain ⟨hensure, havailable, h⟩ := hrule
  obtain ⟨_, hname, h⟩ := except_bind_ok h
  split at h
  · cases h
  · cases h
    refine .ofName rfl (checkIdentifier_ok hname) ?_ (List.forall_mem_nil _) (List.forall_mem_nil _)
    exact List.forall_mem_cons.2 ⟨hensure, List.forall_mem_flatMap.2 havailable⟩

theorem DataVar.Built.part {d : DataVar} (hd : d.Built E) : (Part.dataVar d).WellMade E := by
  obtain ⟨hsource, h⟩ := hd
  obtain ⟨_, hname, h⟩ := except_bind_ok h
  cases h
  exact .ofName rfl (checkIdentifier_ok hname) hsource (List.forall_mem_nil _)
    (List.forall_mem_nil _)

theorem Group.named_part {name : String} {g : Group} (h : named name = .ok g)
    {available : Option Operand} (havailable : ∀ o ∈ available.toList, ∀ e ∈ o.expressions, E e) :
    (Part.group { g with available }).WellMade E := by
  obtain ⟨_, hname, h⟩ := except_bind_ok h
  cases h
  exact .ofName rfl (checkIdentifier_ok hname) (List.forall_mem_flatMap.2 havailable)
    (List.forall_mem_nil _) (List.forall_mem_nil _)

/-- A check has no expressions, and its name, if it has one, was checked. -/
theorem CardinalityCheck.Built.part {check : CardinalityCheck} (h : check.Built) :
    (Part.cardinality check).WellMade E := by
  refine ⟨fun name hname => .inl ?_, List.forall_mem_nil _, List.forall_mem_nil _,
    List.forall_mem_nil _⟩
  cases h with
  | ofRule => cases hname
  | withName _ h =>
    obtain ⟨_, hchecked, h⟩ := except_bind_ok h
    cases h
    cases hname
    exact checkIdentifier_ok hchecked

theorem UniqueCheck.Built.part {check : UniqueCheck} (h : check.Built) :
    (Part.unique check).WellMade E := by
  refine ⟨fun name hname => .inl ?_, List.forall_mem_nil _, List.forall_mem_nil _,
    List.forall_mem_nil _⟩
  induction h with
  | ofFields h =>
    unfold UniqueCheck.ofFields at h
    split at h
    · cases h
    · split at h <;> cases h
      cases hname
  | withName _ h _ =>
    obtain ⟨_, hchecked, h⟩ := except_bind_ok h
    cases h
    cases hname
    exact checkIdentifier_ok hchecked
  | strict _ ih => exact ih hname

/-- Taking a part over changes neither its name nor its expressions, and nothing of a field. -/
theorem Part.ownedBy_keeps (part : Part) (owner : String) :
    (part.ownedBy owner).declaredName? = part.declaredName? ∧
      (part.ownedBy owner).expressions = part.expressions ∧
      (part.ownedBy owner).attributes = part.attributes ∧
      (part.ownedBy owner).leads = part.leads ∧
      ∀ f, part = .field f → part.ownedBy owner = .field f := by
  cases part with
  | extension c =>
    obtain ⟨p, phase⟩ := c
    exact ⟨rfl, rfl, rfl, rfl, fun _ hf => by cases hf⟩
  | cardinality check => exact ⟨rfl, rfl, rfl, rfl, fun _ hf => by cases hf⟩
  | unique check => exact ⟨rfl, rfl, rfl, rfl, fun _ hf => by cases hf⟩
  | _ => exact ⟨rfl, rfl, rfl, rfl, fun _ hf => hf⟩

theorem Part.WellMade.ownedBy {part : Part} (hpart : part.WellMade E) (owner : String) :
    (part.ownedBy owner).WellMade E := by
  obtain ⟨hname, he, ha, hl, hfield⟩ := part.ownedBy_keeps owner
  refine ⟨fun name hnamed => ?_, ?_, ?_, ?_⟩
  · rw [hname] at hnamed
    exact (hpart.labelled name hnamed).imp_right fun ⟨f, hf, hbind⟩ => ⟨f, hfield f hf, hbind⟩
  · rw [he]
    exact hpart.expressions
  · rw [ha]
    exact hpart.attributes
  · rw [hl]
    exact hpart.leads

/-! ## Containers -/

/-- The components are well-made, and so is what is declared inside them. -/
def Component.AllWellMade (E : Expression → Prop) (components : List Component) : Prop :=
  ∀ owner, ∀ entry ∈ Component.preorderAll owner components,
    entry.2.WellMade E ∧ ∀ inner, entry.2 = .extension inner → inner.WellMade E ∧ inner.Unowned

theorem Component.AllWellMade.append {before after : List Component} (h : AllWellMade E before)
    (h' : AllWellMade E after) : AllWellMade E (before ++ after) := by
  intro owner
  rw [preorderAll_append]
  exact List.forall_mem_append.2 ⟨h owner, h' owner⟩

theorem Component.allWellMade_of_forall {components : List Component}
    (h : ∀ component ∈ components, AllWellMade E [component]) : AllWellMade E components := by
  induction components with
  | nil => exact fun _ => List.forall_mem_nil _
  | cons component rest ih =>
    obtain ⟨hfirst, hrest⟩ := List.forall_mem_cons.1 h
    exact hfirst.append (ih hrest)

/-- A component is well-made if its part and its contents are. -/
theorem Component.AllWellMade.node {part : Part} {contents : List Component}
    (hpart : part.WellMade E)
    (hinner : ∀ inner, part = .extension inner → inner.WellMade E ∧ inner.Unowned)
    (hcontents : AllWellMade E contents) : AllWellMade E [.node part contents] := by
  intro owner
  rw [preorderAll, preorder, preorderAll, List.append_nil]
  exact List.forall_mem_cons.2 ⟨⟨hpart, hinner⟩, hcontents _⟩

theorem Component.allWellMade_rules {rules : List Validation} (h : ∀ rule ∈ rules, rule.Built E) :
    AllWellMade E (rules.map ofValidation) :=
  allWellMade_of_forall (List.forall_mem_map.2 fun rule hrule =>
    .node (h rule hrule).part nofun fun _ => List.forall_mem_nil _)

namespace Container.WellMade

/-- A new rule set or extension is well-made if its models are, and the check of its items. -/
theorem new {name : String} {model : ModelTree} {c : Container} (hmodel : model.Built E)
    (h : ruleSet name model = .ok c ∨ ∃ check, check.Built ∧ extension name model check = .ok c) :
    c.WellMade E := by
  have hdeclared : ∀ p : Profile, isIdentifier p.name → p.mainModel = model.model.name →
      (∀ own ∈ p.checks, own.WellMade E) → WellMade E (.mk p (.declared model [] [] [])) :=
    fun p hname hmain hchecks => .declared hname hmain hmodel.parts hchecks
      (fun _ => List.forall_mem_nil _) nofun nofun (List.forall_mem_nil _) (List.forall_mem_nil _)
  rcases h with h | ⟨check, hcheck, h⟩
  · unfold ruleSet at h
    split at h
    · cases h
    · obtain ⟨_, hname, h⟩ := except_bind_ok h
      cases h
      exact hdeclared _ (checkIdentifier_ok hname) rfl (List.forall_mem_nil _)
  · unfold extension at h
    split at h
    · cases h
    · obtain ⟨_, hname, h⟩ := except_bind_ok h
      cases h
      exact hdeclared _ (checkIdentifier_ok hname) rfl
        (List.forall_mem_singleton.2 (hcheck.part.ownedBy name))

theorem withConfig {c : Container} (hc : c.WellMade E) (config : Config) :
    (c.withConfig config).WellMade E := by
  cases hc with
  | declared hname hmain hmodels hchecks hcontents hinside hfree hproviders hrules =>
    exact .declared hname hmain hmodels hchecks hcontents hinside hfree hproviders hrules

theorem withUnique {c : Container} (hc : c.WellMade E) {check : UniqueCheck}
    (hcheck : check.Built) : (c.withUnique check).WellMade E := by
  cases hc with
  | @declared p _ _ _ _ hname hmain hmodels hchecks hcontents hinside hfree hproviders hrules =>
    refine .declared hname hmain hmodels ?_ hcontents hinside hfree hproviders hrules
    unfold Profile.checks at hchecks ⊢
    rw [List.map_append, ← List.append_assoc]
    exact List.forall_mem_append.2
      ⟨hchecks, List.forall_mem_singleton.2 (hcheck.part.ownedBy p.name)⟩

/-- Declaring more keeps a container well-made if what comes in is. -/
theorem declaring {c : Container} (hc : c.WellMade E) {contents : List Component}
    {providers : List DataVar} {rules : List Validation}
    (hcontents : Component.AllWellMade E contents) (hproviders : ∀ d ∈ providers, d.Built E)
    (hrules : ∀ rule ∈ rules, rule.Built E) :
    (c.declaring contents providers rules).WellMade E := by
  cases hc with
  | declared hname hmain hmodels hchecks hold hinside hfree holdProviders holdRules =>
    refine .declared hname hmain hmodels hchecks (fun owner => ?_) (fun owner => ?_)
      (fun owner => ?_)
      (List.forall_mem_append.2 ⟨holdProviders, fun d hd => (hproviders d hd).part⟩)
      (List.forall_mem_append.2 ⟨holdRules, fun rule hrule => (hrules rule hrule).part⟩) <;>
      rw [Component.preorderAll_append]
    · exact List.forall_mem_append.2 ⟨hold owner, fun entry he => (hcontents owner entry he).1⟩
    · exact List.forall_mem_append.2 ⟨hinside owner, fun entry he inner hpart =>
        ((hcontents owner entry he).2 inner hpart).1⟩
    · exact List.forall_mem_append.2 ⟨hfree owner, fun entry he inner hpart =>
        ((hcontents owner entry he).2 inner hpart).2⟩

end Container.WellMade

/-! ### Owners -/

/-- A new rule set or extension has no owner. -/
theorem Container.unowned_new {name : String} {model : ModelTree} {c : Container}
    (h : ruleSet name model = .ok c ∨ ∃ check, extension name model check = .ok c) :
    c.Unowned := by
  rcases h with h | ⟨check, h⟩
  · unfold ruleSet at h
    split at h
    · cases h
    · obtain ⟨_, _, h⟩ := except_bind_ok h
      cases h
      exact nofun
  · unfold extension at h
    split at h
    · cases h
    · obtain ⟨_, _, h⟩ := except_bind_ok h
      cases h
      exact nofun

theorem Container.Unowned.withConfig {c : Container} (hc : c.Unowned) (config : Config) :
    (c.withConfig config).Unowned := by
  obtain ⟨p, phase⟩ := c
  exact hc

theorem Container.Unowned.withUnique {c : Container} (hc : c.Unowned) (check : UniqueCheck) :
    (c.withUnique check).Unowned := by
  obtain ⟨p, phase⟩ := c
  exact hc

theorem Container.Unowned.declaring {c : Container} (hc : c.Unowned) (contents : List Component)
    (providers : List DataVar) (rules : List Validation) :
    (c.declaring contents providers rules).Unowned := by
  obtain ⟨p, _ | _ | _⟩ := c <;> exact hc

/-- Adding a group is declaring it. -/
theorem Container.addGroup_ok {c c' : Container} {g : Group} {contents : List Component}
    {rules : List Validation} (h : c.addGroup g contents rules = .ok c') :
    c' = c.declaring [.ofGroup g contents rules] [] [] := by
  obtain ⟨p, ⟨model, old, providers, validations⟩ | ⟨_, _⟩ | _⟩ := c
  · simp only [addGroup] at h
    split at h
    · cases h
    · cases h
      simp only [declaring, List.append_nil]
  · simp only [addGroup] at h
    cases h
  · simp only [addGroup] at h
    cases h

/-- What is built is well-made, and nobody has taken it over. The induction goes through components
and containers alike. -/
theorem Container.Built.wellMade {c : Container} (h : c.Built E) : c.WellMade E ∧ c.Unowned := by
  refine @Container.Built.rec E (fun component _ => Component.AllWellMade E [component])
    (fun c _ => c.WellMade E ∧ c.Unowned) ?field ?group ?dataVar ?validation ?model ?inside ?cardinality
    ?unique ?ruleSet ?extension ?withConfig ?withUnique ?declaring ?addGroup c h
  case field =>
    intro f rules enables hf hrules _ henables
    exact .node hf.part nofun ((Component.allWellMade_rules hrules).append
      (Component.allWellMade_of_forall henables))
  case group =>
    intro name g available contents rules hg havailable _ hrules hcontents
    exact .node (Group.named_part hg havailable) nofun
      ((Component.allWellMade_of_forall hcontents).append (Component.allWellMade_rules hrules))
  case dataVar => exact fun hd => .node hd.part nofun fun _ => List.forall_mem_nil _
  case validation => exact fun hrule => .node hrule.part nofun fun _ => List.forall_mem_nil _
  case model =>
    intro model hmodel owner entry he
    rw [Component.preorderAll, Component.preorderAll, List.append_nil] at he
    obtain ⟨m, hm, hpart⟩ := Component.mem_preorder_ofModel he
    rw [hpart]
    exact ⟨hmodel.parts m hm, nofun⟩
  case inside =>
    intro c _ hinner
    refine .node ?_ (fun inner h => ?_) fun _ => List.forall_mem_nil _
    · cases hinner.1 with
      | declared hname =>
        exact .ofName rfl hname (List.forall_mem_nil _) (List.forall_mem_nil _)
          (List.forall_mem_nil _)
    · cases h
      exact hinner
  case cardinality => exact fun hcheck => .node hcheck.part nofun fun _ => List.forall_mem_nil _
  case unique => exact fun hcheck => .node hcheck.part nofun fun _ => List.forall_mem_nil _
  case ruleSet => exact fun hmodel h => ⟨.new hmodel (.inl h), unowned_new (.inl h)⟩
  case extension =>
    exact fun hmodel hcheck h => ⟨.new hmodel (.inr ⟨_, hcheck, h⟩), unowned_new (.inr ⟨_, h⟩)⟩
  case withConfig => exact fun config _ hc => ⟨hc.1.withConfig config, hc.2.withConfig config⟩
  case withUnique => exact fun _ hcheck hc => ⟨hc.1.withUnique hcheck, hc.2.withUnique _⟩
  case declaring =>
    intro c contents providers rules _ _ hproviders hrules hc hcontents
    exact ⟨hc.1.declaring (Component.allWellMade_of_forall hcontents) hproviders hrules,
      hc.2.declaring _ _ _⟩
  case addGroup =>
    intro c c' name g available contents rules _ hg havailable _ hrules h hc hcontents
    rw [addGroup_ok h]
    refine ⟨hc.1.declaring (.node (Group.named_part hg havailable) nofun ?_) (List.forall_mem_nil _)
      (List.forall_mem_nil _), hc.2.declaring _ _ _⟩
    exact (Component.allWellMade_of_forall hcontents).append (Component.allWellMade_rules hrules)

/-- What is declared inside a well-made container is well-made, whatever configuration it gets. -/
theorem inherited_wellMade : Inherited (Container.WellMade E) where
  config config hc := hc.withConfig config
  inside hc entry he _ c howned := by
    cases hc with
    | declared _ _ _ _ _ hinside =>
      obtain ⟨p, phase, hpart, rfl⟩ := Part.eq_extension_of_ownedBy howned
      cases hinside _ entry he _ hpart with
      | declared hname hmain hmodels hchecks hcontents hinside hfree hproviders hrules =>
        exact .declared hname hmain hmodels hchecks hcontents hinside hfree hproviders hrules

/-! ## What is built keeps what setup relies on -/

mutual

theorem ModelTree.wellNamed_of_all : ∀ {tree : ModelTree},
    (∀ m ∈ tree.all, isIdentifier m.name) → tree.WellNamed
  | .node _ _, h =>
    have hall := List.forall_mem_cons.1 h
    ⟨hall.1, ModelTree.allWellNamed_of_all hall.2⟩

theorem ModelTree.allWellNamed_of_all : ∀ {trees : List ModelTree},
    (∀ m ∈ ModelTree.allOf trees, isIdentifier m.name) → ModelTree.AllWellNamed trees
  | [], _ => trivial
  | _ :: _, h =>
    have hall := List.forall_mem_append.1 h
    ⟨ModelTree.wellNamed_of_all hall.1, ModelTree.allWellNamed_of_all hall.2⟩

end

mutual

theorem Component.wellNamed_of_preorder {owner : String} : ∀ {component : Component},
    (∀ entry ∈ component.preorder owner, entry.2.WellNamed) → component.WellNamed
  | .node _ _, h =>
    have hall := List.forall_mem_cons.1 h
    ⟨hall.1, Component.allWellNamed_of_preorder hall.2⟩

theorem Component.allWellNamed_of_preorder {owner : String} : ∀ {components : List Component},
    (∀ entry ∈ Component.preorderAll owner components, entry.2.WellNamed) →
    Component.AllWellNamed components
  | [], _ => trivial
  | _ :: _, h =>
    have hall := List.forall_mem_append.1 h
    ⟨Component.wellNamed_of_preorder hall.1, Component.allWellNamed_of_preorder hall.2⟩

end

/-- The models of a container that is built, and of the extensions inside it, are named with
identifiers. -/
theorem Container.Built.wellNamed {c : Container} (h : c.Built E) : c.WellNamed := by
  have hmade := h.wellMade.1
  clear h
  induction hmade with
  | @declared p model contents _ _ _ _ hmodels _ _ _ _ _ _ ih =>
    refine ⟨ModelTree.wellNamed_of_all fun m hm => ?_,
      Component.allWellNamed_of_preorder
        fun entry (he : entry ∈ Component.preorderAll "" contents) => ?_⟩
    · rcases (hmodels m hm).labelled m.name rfl with hname | ⟨f, hf, _⟩
      · exact hname
      · cases hf
    · cases hpart : entry.2 with
      | extension inner => exact ih _ entry he inner hpart
      | _ => trivial

/-- A container that is built notes its main model, and so do the extensions inside it. -/
theorem Container.Built.wellDeclared {c : Container} (h : c.Built E) : c.WellDeclared := by
  have hmade := h.wellMade.1
  clear h
  induction hmade with
  | declared _ hmain _ _ _ _ _ _ _ ih => exact .declared hmain ih

end Formwork
