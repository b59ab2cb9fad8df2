-- What setup makes of the expressions of a component. A step that succeeds and leaves nothing
-- unresolved has resolved each expression that it came to, and it comes to all of them. Only the
-- attributes of choices are left as they were declared when the choices have no known shape.
import Formwork.Proofs.Component.Binding
import Formwork.Proofs.Expression.Reading
import Formwork.Proofs.Heap.Accruing
import Mathlib.Data.List.Forall2

namespace Formwork

open Drafting

/-! ## The expressions of a component -/

/-- The expression of an operand, if it is one. -/
def Operand.expressions : Operand → List Expression
  | .expression e => [e]
  | .literal _ => []

/-- The expression that the choices are found by. -/
def Choices.expressions : Choices → List Expression
  | .expression e => [e]
  | _ => []

/-- The attributes of a choice that are stored and shown. -/
def ChoiceSpec.attributes (spec : ChoiceSpec) : List Expression :=
  spec.value.toList ++ spec.label.toList

/-- The choices of a field that has some. -/
def FieldKind.choices? : FieldKind → Option ChoiceSpec
  | .choice spec => some spec
  | _ => none

/-- The expressions of a field, the attributes of its choices left out. -/
def Field.expressions (f : Field) : List Expression :=
  [f.bind] ++ f.required.toList.flatMap Operand.expressions ++
    f.editable.toList.flatMap Operand.expressions ++
    f.available.toList.flatMap Operand.expressions ++
    f.default.toList.flatMap Operand.expressions ++
    f.kind.choices?.toList.flatMap fun spec => spec.choices.expressions

/-- The expression that a value is taken from. -/
def DataSource.expressions : DataSource → List Expression
  | .expression e => [e]
  | _ => []

/-- The expressions that the functions of a model take parameters from. -/
def ModelSource.injected : ModelSource → List Expression
  | .handlers load save => load.inject.map Prod.snd ++ save.inject.map Prod.snd
  | _ => []

/-- The expressions of a part that belong to the part itself: not those that lead to models, nor the
attributes of choices. -/
def Part.expressions : Part → List Expression
  | .field f => f.expressions
  | .group g => g.available.toList.flatMap Operand.expressions
  | .dataVar d => d.source.expressions
  | .validation v => v.ensure :: v.available.toList.flatMap Operand.expressions
  | .model m => m.source.injected
  | _ => []

/-- The choices of a part that has some. -/
def Part.choices? : Part → Option ChoiceSpec
  | .field f => f.kind.choices?
  | _ => none

/-- The attributes of the choices of a part. -/
def Part.attributes (part : Part) : List Expression :=
  part.choices?.toList.flatMap ChoiceSpec.attributes

/-- None of the expressions was set up yet. -/
def AllFresh (es : List Expression) : Prop := ∀ e ∈ es, e.Fresh

/-- All of the expressions are resolved, with everything in them, and so can be read. -/
def AllReady (es : List Expression) : Prop := ∀ e ∈ es, e.Ready

/-- The shape of the choices is known: they are not found by an expression, or by one that leads to
a variable with a shape. -/
def ChoiceSpec.Described (heap : Heap) (spec : ChoiceSpec) : Prop :=
  match spec.choices with
  | .expression e => ((heap.byExpression? e).bind Variable.descriptor?).isSome
  | _ => True

/-- The attributes of the choices are ready if the shape of the choices is known; otherwise they are
as they were declared. -/
def ChoiceSpec.Settled (heap : Heap) (spec : ChoiceSpec) : Prop :=
  ∀ e ∈ spec.attributes, (spec.Described heap → e.Ready) ∧ (¬ spec.Described heap → e.Fresh)

theorem Expression.Fresh.pending {e : Expression} (h : e.Fresh) : e.state = .pending := by
  cases e with
  | path => exact Expression.fresh_path h
  | computed => exact (Expression.fresh_computed h).2

theorem Expression.Ready.status {e : Expression} (h : e.Ready) : e.state.status = "Ok" := by
  cases e with
  | path =>
    obtain ⟨name, rfl⟩ := h
    rfl
  | computed =>
    obtain ⟨_, rfl⟩ := h
    rfl

/-! ## Steps that settle -/

variable {final : Heap}

/-- The step only uses the heap. Where it succeeds and leaves nothing unresolved, and the heap has
become `final` at last, its result is as `Q` says. -/
structure Settles {α : Type} (final : Heap) (step : Drafting α) (Q : α → Prop) : Prop where
  uses : OnlyUses step
  ensures : ∀ {draft draft' : Draft} {a : α}, draft.heap.Sound → draft.heap.Canonical →
    step.run draft = (.ok a, draft') → draft'.unresolved = [] →
    Heap.Accrues draft'.heap final → Q a

section Combining

variable {α β : Type} {P Q : α → Prop}

theorem settles_pure {a : α} (h : Q a) : Settles final (pure a) Q := by
  refine ⟨onlyBuilds_pure a, fun _ _ hr _ _ => ?_⟩
  cases hr
  exact h

theorem settles_throw (e : Error) : Settles final (throw e) Q := by
  refine ⟨onlyBuilds_throw e, fun _ _ hr _ _ => ?_⟩
  cases hr

theorem settles_ofExcept {result : Except Error α} (h : ∀ a, result = .ok a → Q a) :
    Settles final (ofExcept result) Q := by
  refine ⟨onlyBuilds_ofExcept result, fun _ _ hr _ _ => ?_⟩
  exact h _ (Step.run_ofExcept_ok hr).1

/-- What the first step ensures can be used of what comes after it. -/
theorem settles_bind {x : Drafting α} {f : α → Drafting β} {Q : β → Prop} (hx : Settles final x P)
    (hf : ∀ a, Settles final (f a) fun b => P a → Q b) : Settles final (x >>= f) Q := by
  refine ⟨onlyBuilds_bind hx.uses fun a => (hf a).uses, ?_⟩
  intro draft draft' b hs hc hr hclean hfinal
  obtain ⟨a, draft₁, hfirst, hrest⟩ := Step.run_bind_ok hr
  have hbefore := hx.uses.builds hs hfirst
  have hafter := (hf a).uses.builds (hbefore.heap.sound hs) hrest
  have hclean₁ : draft₁.unresolved = [] := by
    have hprefix := hafter.unresolved
    rw [hclean] at hprefix
    exact List.prefix_nil.1 hprefix
  apply (hf a).ensures (hbefore.heap.sound hs) (hc.builds hbefore.heap) hrest hclean hfinal
  exact hx.ensures hs hc hfirst hclean₁ (hafter.heap.accrues.trans hfinal)

theorem Settles.mono {step : Drafting α} (h : Settles final step P) (hmono : ∀ a, P a → Q a) :
    Settles final step Q :=
  ⟨h.uses, fun hs hc hr hclean hfinal => hmono _ (h.ensures hs hc hr hclean hfinal)⟩

theorem settles_ownedBy {name : String} {step : Drafting α} (h : Settles final step Q) :
    Settles final (Drafting.ownedBy name step) Q := by
  refine ⟨onlyBuilds_ownedBy h.uses, ?_⟩
  intro draft draft' a hs hc hr hclean hfinal
  exact h.ensures hs hc (Step.run_adapt_eq_ok.1 hr) hclean hfinal

theorem settles_mapM {f : α → Drafting β} {R : α → β → Prop} (h : ∀ a, Settles final (f a) (R a))
    (items : List α) : Settles final (items.mapM f) (List.Forall₂ R items) := by
  induction items with
  | nil =>
    rw [List.mapM_nil]
    exact settles_pure .nil
  | cons a rest ih =>
    rw [List.mapM_cons]
    refine settles_bind (h a) fun b => settles_bind ih fun bs => settles_pure ?_
    intro hrest hfirst
    exact .cons hfirst hrest

end Combining

/-! ## Expressions -/

/-- An expression whose setup found no variable leads to none. -/
theorem Expression.target?_of_setup {owner : String} {e : Expression} {h : Heap}
    (ho : (e.setup owner h).outcome = .ok none) : (e.setup owner h).subject.target? = none := by
  have hpending := Expression.pending_of_setup_ok owner ho
  cases e with
  | path ns root hops state =>
    obtain rfl : state = .pending := hpending
    rcases Expression.setup_path_cases owner ns root hops h with
      ⟨_, _, _, _, _, _, hs⟩ | ⟨_, _, _, _, _, _, hs⟩ | ⟨_, _, failed, _, hsoft, hs⟩ |
        ⟨_, _, _, _, hs⟩
    · simp [hs] at ho
    · simp [hs] at ho
    · have hunresolved := (Error.softState?_failed hsoft).2
      rw [hs]
      unfold Expression.target? Expression.state
      cases failed with
      | resolved access => cases hunresolved
      | _ => rfl
    · simp [hs] at ho
  | computed operation hops state =>
    obtain rfl : state = .pending := hpending
    rw [Expression.setup_computed] at ho ⊢
    rcases hoperation : (operation.setup owner h).outcome with error | s
    · simp [hoperation] at ho
    · simp only [hoperation]
      cases s <;> rfl

/-- What a resolved expression leads to stays the same, whatever else is done to the heap. -/
theorem Expression.setup_leads {owner : String} {e : Expression} {h : Heap} {found : Option VarId}
    (hs : h.Sound) (hc : h.Canonical) (ho : (e.setup owner h).outcome = .ok found)
    (hfinal : Heap.Accrues (e.setup owner h).heap final) :
    final.byExpression? (e.setup owner h).subject = found.bind final.find? := by
  cases found with
  | none => rw [Heap.byExpression?, Expression.target?_of_setup ho, Option.bind_none,
      Option.bind_none]
  | some id =>
    obtain ⟨v, hv⟩ := Expression.setup_registered owner hs ho
    obtain ⟨_, hfound⟩ := Expression.setup_found owner e h (some id) ho
    obtain ⟨w, hw, htarget⟩ := hfound id rfl
    obtain rfl : w = v := Option.some.inj (hw.symm.trans hv.2)
    have huses := Expression.uses_setup owner e h hs
    have hlookup := hc.builds huses id w hv.2
    rw [hv.ns (huses.sound hs)] at hlookup
    rw [Heap.byExpression?, htarget, Expression.ns_setup, Option.bind_some, Heap.get?,
      hfinal.names _ _ _ hlookup]

theorem settles_settle (owner : String) (e : Expression) :
    Settles final (settle owner e) fun result =>
      e.Fresh → result.1.Ready ∧ final.byExpression? result.1 = result.2.bind final.find? := by
  refine ⟨onlyUses_settle owner e, ?_⟩
  rintro draft draft' ⟨e', found⟩ hs hc hr hclean hfinal hfresh
  unfold settle at hr
  rw [hfresh.pending] at hr
  obtain ⟨⟨e₁, id⟩, draft₁, hresolve, hr⟩ := Step.run_bind_ok hr
  obtain ⟨ho, rfl, rfl⟩ := resolve_ok hresolve
  by_cases hresolved : (e.setup owner draft.heap).subject.state.isResolved
  · simp only [hresolved] at hr
    cases hr
    exact ⟨Expression.ready_setup owner e draft.heap _ ho hresolved,
      Expression.setup_leads hs hc ho hfinal⟩
  · simp only [hresolved] at hr
    cases hr
    simp at hclean

theorem settles_settleOnly (owner : String) (e : Expression) :
    Settles final (settleOnly owner e) fun e' => e.Fresh → e'.Ready := by
  unfold settleOnly
  refine settles_bind (settles_settle owner e) fun result => settles_pure ?_
  intro h hfresh
  exact (h hfresh).1

theorem settles_settleOperand (owner : String) (operand : Operand) :
    Settles final (settleOperand owner operand) fun operand' =>
      AllFresh operand.expressions → AllReady operand'.expressions := by
  unfold settleOperand
  cases operand with
  | expression e =>
    refine settles_bind (settles_settleOnly owner e) fun e' => settles_pure ?_
    intro hready hfresh
    exact List.forall_mem_singleton.2 (hready (List.forall_mem_singleton.1 hfresh))
  | literal v =>
    apply settles_pure
    intro _ e he
    cases he

theorem settles_settleOption (owner : String) (operand : Option Operand) :
    Settles final (settleOption owner operand) fun operand' =>
      AllFresh (operand.toList.flatMap Operand.expressions) →
      AllReady (operand'.toList.flatMap Operand.expressions) := by
  unfold settleOption
  cases operand with
  | none =>
    apply settles_pure
    intro _ e he
    cases he
  | some operand =>
    refine settles_bind (settles_settleOperand owner operand) fun operand' => settles_pure ?_
    simp only [Option.toList_some, List.flatMap_singleton]
    exact id

/-! ## Fields -/

theorem settles_bindField (f : Field) : Settles final (bindField f) fun result =>
    result.1.Ready := by
  refine ⟨onlyUses_bindField f, ?_⟩
  rintro draft draft' ⟨bind, binding⟩ hs hc hr hclean hfinal
  obtain ⟨found, _, ho, rfl, hresolved, _⟩ := bindField_ok hr
  exact Expression.ready_setup f.name f.bind draft.heap found ho hresolved

/-- What is resolved without a heap is a path that was not tried before, and can be read. -/
theorem Expression.setupDetached_ok {e e' : Expression} (h : e.setupDetached = .ok e') :
    e.state = .pending ∧ e'.Ready := by
  unfold Expression.setupDetached at h
  split at h <;> cases h
  exact ⟨by assumption, none, rfl⟩

/-- An attribute of the choices that is resolved was not tried before, and can be read. -/
theorem resolveChoiceAttr_ok {e e' : Expression} {record d : Descriptor} {limit : Nat}
    (h : resolveChoiceAttr e record limit = .ok (e', d)) : e.state = .pending ∧ e'.Ready := by
  unfold resolveChoiceAttr at h
  by_cases hplace : e.ns ≠ .this ∨ e.depth ≠ 1
  · rw [if_pos hplace] at h
    cases h
  · rw [if_neg hplace] at h
    rcases hname : e.attributes.head? with _ | name <;> rw [hname] at h
    · cases h
    · obtain ⟨_, _, h⟩ := except_bind_ok h
      obtain ⟨_, hdetached, h⟩ := except_bind_ok h
      cases h
      exact Expression.setupDetached_ok hdetached

/-- Where the attributes of choices are resolved, the choices are a list, the attributes were not
tried before and can be read, and nothing else changes. -/
theorem resolveChoiceAttrs_ok {spec spec' : ChoiceSpec} {record : Descriptor} {limit : Nat}
    (h : resolveChoiceAttrs spec record limit = .ok spec') :
    record.isList ∧ spec'.choices = spec.choices ∧
      Option.Rel (fun e e' => e.state = .pending ∧ e'.Ready) spec.value spec'.value ∧
      Option.Rel (fun e e' => e.state = .pending ∧ e'.Ready) spec.label spec'.label := by
  unfold resolveChoiceAttrs at h
  split at h
  · cases h
  rename_i hlist
  obtain ⟨value, hvalue, h⟩ := except_bind_ok h
  obtain ⟨label, hlabel, h⟩ := except_bind_ok h
  cases h
  refine ⟨by simpa using hlist, rfl, ?_, ?_⟩
  · rcases except_mapM_option_ok hvalue with ⟨hnone, rfl⟩ | ⟨e, e', hsome, rfl, hdone⟩
    · rw [hnone]
      exact .none
    · obtain ⟨⟨_, d⟩, hattr, hsame⟩ := except_bind_ok hdone
      cases hsame
      rw [hsome]
      exact .some (resolveChoiceAttr_ok hattr)
  · rcases except_mapM_option_ok hlabel with ⟨hnone, rfl⟩ | ⟨e, e', hsome, rfl, hdone⟩
    · rw [hnone]
      exact .none
    · obtain ⟨⟨_, d⟩, hattr, hsame⟩ := except_bind_ok hdone
      dsimp only at hsame
      split at hsame <;> cases hsame
      rw [hsome]
      exact .some (resolveChoiceAttr_ok hattr)

theorem resolveChoiceAttrs_ready {spec spec' : ChoiceSpec} {record : Descriptor} {limit : Nat}
    (h : resolveChoiceAttrs spec record limit = .ok spec') :
    spec'.choices = spec.choices ∧ AllReady spec'.attributes := by
  obtain ⟨_, hsame, hvalue, hlabel⟩ := resolveChoiceAttrs_ok h
  have hready : ∀ {o o' : Option Expression},
      Option.Rel (fun e e' => e.state = .pending ∧ e'.Ready) o o' → AllReady o'.toList := by
    intro o o' h
    cases h with
    | none => exact List.forall_mem_nil _
    | some h => exact List.forall_mem_singleton.2 h.2
  exact ⟨hsame, List.forall_mem_append.2 ⟨hready hvalue, hready hlabel⟩⟩

/-- The shape of what a variable stands for is settled before the heap is finished. -/
theorem settles_variableAt (id : VarId) :
    Settles final (onHeap (Heap.variableAt id)) fun v =>
      (final.find? id).bind Variable.descriptor? = v.descriptor? := by
  refine ⟨onlyUses_variableAt id, ?_⟩
  intro draft draft' v hs hc hr hclean hfinal
  obtain ⟨heap, hat, rfl⟩ := onHeap_ok hr
  obtain ⟨hv, rfl⟩ := Heap.variableAt_ok hat
  obtain ⟨w, hw, hcore, _⟩ := hfinal.kept id v hv
  rw [hw, Option.bind_some, Variable.descriptor?, Variable.descriptor?,
    (Variable.eq_of_core hcore).2.1]

namespace ChoiceSpec

variable {spec spec' : ChoiceSpec}

/-- Attributes that were never set up are settled while the shape of the choices is not known. -/
theorem settled_without_shape {e : Expression} (hready : e.Ready)
    (hshape : (final.byExpression? e).bind Variable.descriptor? = none)
    (hfresh : AllFresh spec.attributes) :
    AllReady (Choices.expression e).expressions ∧
      Settled final { spec with choices := .expression e } := by
  refine ⟨List.forall_mem_singleton.2 hready, fun a ha => ⟨fun hdescribed => ?_, fun _ => ?_⟩⟩
  · unfold Described at hdescribed
    simp [hshape] at hdescribed
  · exact hfresh a ha

/-- Attributes that were resolved are settled if the shape of the choices is known. -/
theorem settled_with_shape {record : Descriptor} {limit : Nat}
    (hspec : resolveChoiceAttrs spec record limit = .ok spec')
    (hready : AllReady spec.choices.expressions) (hdescribed : spec.Described final) :
    AllReady spec'.choices.expressions ∧ spec'.Settled final := by
  obtain ⟨hsame, hattributes⟩ := resolveChoiceAttrs_ready hspec
  unfold Described at hdescribed
  rw [← hsame] at hready hdescribed
  exact ⟨hready, fun e he => ⟨fun _ => hattributes e he, fun h => absurd hdescribed h⟩⟩

/-- Without attributes there is nothing to settle. -/
theorem settled_without_attributes (hvalue : spec.value = none) (hlabel : spec.label = none) :
    spec.Settled final := by
  intro e he
  unfold attributes at he
  rw [hvalue, hlabel] at he
  cases he

end ChoiceSpec

section Choosing

variable {spec : ChoiceSpec}

/-- Choices that an expression leads to are settled, whether a shape is found for them or not. -/
theorem settles_settleChoices_expression (owner : String) (limit : Nat) {e : Expression}
    (hchoices : spec.choices = .expression e) :
    Settles final (settleChoices owner limit spec) fun spec' =>
      AllFresh [e] → AllFresh spec.attributes →
      AllReady spec'.choices.expressions ∧ spec'.Settled final := by
  unfold settleChoices
  rw [hchoices]
  refine settles_bind (settles_settle owner e) ?_
  rintro ⟨e', found⟩
  dsimp only
  rcases found with _ | id
  · apply settles_pure
    intro hsettle hfresh
    obtain ⟨hready, hleads⟩ := hsettle (List.forall_mem_singleton.1 hfresh)
    exact ChoiceSpec.settled_without_shape hready (by rw [hleads]; rfl)
  · refine settles_bind (settles_variableAt id) fun v => ?_
    rcases hshape : v.descriptor? with _ | record <;> dsimp only
    · apply settles_pure
      intro hv hsettle hfresh
      obtain ⟨hready, hleads⟩ := hsettle (List.forall_mem_singleton.1 hfresh)
      exact ChoiceSpec.settled_without_shape hready (by rw [hleads]; exact hv)
    · apply settles_ofExcept
      intro spec' hspec hv hsettle hfresh _
      obtain ⟨hready, hleads⟩ := hsettle (List.forall_mem_singleton.1 hfresh)
      apply ChoiceSpec.settled_with_shape hspec (List.forall_mem_singleton.2 hready)
      unfold ChoiceSpec.Described
      dsimp only
      rw [hleads, Option.bind_some, hv]
      rfl

/-- Choices that a function gives are settled, since their shape is that of its result. -/
theorem settles_settleChoices_function (owner : String) (limit : Nat) {signature : Signature}
    (hchoices : spec.choices = .function signature) :
    Settles final (settleChoices owner limit spec) fun spec' =>
      AllReady spec'.choices.expressions ∧ spec'.Settled final := by
  unfold settleChoices
  rw [hchoices]
  refine settles_bind (settles_ofExcept fun _ _ => trivial) fun record =>
    settles_ofExcept fun spec' hspec _ => ?_
  apply ChoiceSpec.settled_with_shape hspec
  · rw [hchoices]
    exact List.forall_mem_nil _
  · unfold ChoiceSpec.Described
    rw [hchoices]
    trivial

/-- Fixed choices are settled, since they have no attributes. -/
theorem settles_settleChoices_options (owner : String) (limit : Nat)
    {options : List (Value × String)} (hchoices : spec.choices = .options options) :
    Settles final (settleChoices owner limit spec) fun spec' =>
      AllReady spec'.choices.expressions ∧ spec'.Settled final := by
  unfold settleChoices
  simp only [throw_bind, hchoices]
  by_cases hempty : options.isEmpty = true
  · rw [if_pos hempty]
    exact settles_throw _
  · rw [if_neg hempty]
    by_cases hattributes : (spec.value.isSome || spec.label.isSome) = true
    · rw [if_pos hattributes]
      exact settles_throw _
    · rw [if_neg hattributes]
      simp only [Bool.or_eq_true, not_or, Bool.not_eq_true, Option.isSome_eq_false_iff,
        Option.isNone_iff_eq_none] at hattributes
      apply settles_pure
      rw [hchoices]
      exact ⟨List.forall_mem_nil _,
        ChoiceSpec.settled_without_attributes hattributes.1 hattributes.2⟩

end Choosing

theorem settles_settleChoices (owner : String) (limit : Nat) (spec : ChoiceSpec) :
    Settles final (settleChoices owner limit spec) fun spec' =>
      AllFresh spec.choices.expressions → AllFresh spec.attributes →
      AllReady spec'.choices.expressions ∧ spec'.Settled final := by
  rcases hchoices : spec.choices with e | signature | options
  · exact settles_settleChoices_expression owner limit hchoices
  · exact (settles_settleChoices_function owner limit hchoices).mono fun _ h _ _ => h
  · exact (settles_settleChoices_options owner limit hchoices).mono fun _ h _ _ => h

/-- Kinds other than choices have no expressions of their own. -/
theorem settles_settleKind (config : Config) (f : Field) (d : Descriptor)
    (default : Option Operand) :
    Settles final (settleKind config f d default) fun kind =>
      AllFresh (f.kind.choices?.toList.flatMap fun spec => spec.choices.expressions) →
      AllFresh (f.kind.choices?.toList.flatMap ChoiceSpec.attributes) →
      AllReady (kind.choices?.toList.flatMap fun spec => spec.choices.expressions) ∧
        ∀ spec, kind.choices? = some spec → spec.Settled final := by
  have hplain : ∀ {kind : FieldKind}, kind.choices? = none →
      AllReady (kind.choices?.toList.flatMap fun spec => spec.choices.expressions) ∧
        ∀ spec, kind.choices? = some spec → spec.Settled final := by
    intro kind hnone
    rw [hnone]
    exact ⟨List.forall_mem_nil _, fun spec hspec => by cases hspec⟩
  unfold settleKind
  rcases f.kind with _ | _ | spec | explicit <;> dsimp only
  · apply settles_pure
    intro _ _
    exact hplain rfl
  · refine settles_bind (settles_ofExcept fun _ _ => trivial) fun _ => settles_pure ?_
    intro _ _ _
    exact hplain rfl
  · refine settles_bind (settles_settleChoices f.name config.maxSuggestions spec) fun spec' =>
      settles_pure ?_
    simp only [FieldKind.choices?, Option.toList_some, List.flatMap_singleton]
    intro hsettled hfresh hattributes
    obtain ⟨hready, hspec'⟩ := hsettled hfresh hattributes
    refine ⟨hready, fun spec'' h => ?_⟩
    cases h
    exact hspec'
  · refine settles_bind (settles_ofExcept fun _ _ => trivial) fun _ => settles_pure ?_
    intro _ _ _
    exact hplain rfl

theorem settles_setupField (config : Config) (f : Field) :
    Settles final (setupField config f) fun f' =>
      AllFresh f.expressions → AllFresh (f.kind.choices?.toList.flatMap ChoiceSpec.attributes) →
      AllReady f'.expressions ∧ ∀ spec, f'.kind.choices? = some spec → spec.Settled final := by
  unfold setupField
  refine settles_bind (settles_bindField f) ?_
  rintro ⟨bind, binding⟩
  refine settles_bind (settles_settleOption f.name f.required) fun required => ?_
  refine settles_bind (settles_settleOption f.name f.editable) fun editable => ?_
  refine settles_bind (settles_settleOption f.name f.available) fun available => ?_
  refine settles_bind (settles_settleOption f.name f.default) fun default => ?_
  refine settles_bind (settles_ownedBy (settles_settleKind config f _ _)) fun kind =>
    settles_pure ?_
  intro hkind hdefault havailable heditable hrequired hbind hfresh hattributes
  unfold Field.expressions at hfresh
  simp only [AllFresh, List.forall_mem_append] at hfresh
  obtain ⟨⟨⟨⟨⟨_, hfresh₁⟩, hfresh₂⟩, hfresh₃⟩, hfresh₄⟩, hfresh₅⟩ := hfresh
  obtain ⟨hchoices, hsettled⟩ := hkind hfresh₅ hattributes
  refine ⟨?_, hsettled⟩
  unfold Field.expressions
  simp only [AllReady, List.forall_mem_append]
  exact ⟨⟨⟨⟨⟨List.forall_mem_singleton.2 hbind, hrequired hfresh₁⟩, heditable hfresh₂⟩,
    havailable hfresh₃⟩, hdefault hfresh₄⟩, hchoices⟩

/-! ## Parts -/

theorem settles_setupValidation (name : String) (v : Validation) :
    Settles final (setupValidation name v) fun v' =>
      AllFresh (Part.validation v).expressions → AllReady (Part.validation v').expressions := by
  unfold setupValidation
  refine settles_bind (settles_settleOnly name v.ensure) fun ensure => ?_
  refine settles_bind (settles_settleOption name v.available) fun available => settles_pure ?_
  intro havailable hensure hfresh
  obtain ⟨hfirst, hrest⟩ := List.forall_mem_cons.1 hfresh
  exact List.forall_mem_cons.2 ⟨hensure hfirst, havailable hrest⟩

theorem settles_setupHandler (name : String) (h : Handler) :
    Settles final (setupHandler name h) fun h' =>
      AllFresh (h.inject.map Prod.snd) → AllReady (h'.inject.map Prod.snd) := by
  have hentry : ∀ entry : String × Expression,
      Settles final (do return (entry.1, ← settleOnly name entry.2)) fun entry' =>
        entry.2.Fresh → entry'.2.Ready := by
    intro entry
    refine settles_bind (settles_settleOnly name entry.2) fun e => settles_pure ?_
    exact id
  obtain ⟨signature, inject, parameter⟩ := h
  unfold setupHandler
  refine settles_bind (settles_mapM hentry inject) fun inject' => settles_pure ?_
  intro hall hfresh
  dsimp only at hfresh ⊢
  induction hall with
  | nil => exact List.forall_mem_nil _
  | cons hfirst _ ih =>
    obtain ⟨hfresh₁, hfresh₂⟩ := List.forall_mem_cons.1 hfresh
    exact List.forall_mem_cons.2 ⟨hfirst hfresh₁, ih hfresh₂⟩

theorem settles_setupModel (name : String) (m : BoundModel) :
    Settles final (setupModel name m) fun m' =>
      AllFresh m.source.injected → AllReady m'.source.injected := by
  unfold setupModel
  rcases hsource : m.source with declared | e | ⟨load, save⟩ <;> dsimp only
  · apply settles_pure
    intro _
    rw [hsource]
    exact List.forall_mem_nil _
  · apply settles_pure
    intro _
    rw [hsource]
    exact List.forall_mem_nil _
  · refine settles_bind (settles_setupHandler name load) fun load' => ?_
    refine settles_bind (settles_setupHandler name save) fun save' => settles_pure ?_
    intro hsave hload hfresh
    obtain ⟨hfresh₁, hfresh₂⟩ := List.forall_mem_append.1 hfresh
    exact List.forall_mem_append.2 ⟨hload hfresh₁, hsave hfresh₂⟩

variable {extend : ExtensionSetup}

/-- A part that is set up and leaves nothing unresolved has all its expressions resolved, the
attributes of choices as far as the shape of the choices is known. -/
theorem settles_setupPart (hextend : extend.OnlyUses) (config : Config) (name : String)
    (part : Part) :
    Settles final (setupPart extend config name part) fun part' =>
      AllFresh part.expressions → AllFresh part.attributes →
      AllReady part'.expressions ∧ ∀ spec, part'.choices? = some spec → spec.Settled final := by
  have hplain : ∀ {part' : Part}, part'.choices? = none → AllReady part'.expressions →
      AllReady part'.expressions ∧ ∀ spec, part'.choices? = some spec → spec.Settled final := by
    intro part' hnone hready
    refine ⟨hready, fun spec hspec => ?_⟩
    rw [hnone] at hspec
    cases hspec
  cases part with
  | field f => exact settles_bind (settles_setupField config f) fun f' => settles_pure id
  | group g =>
    refine settles_bind (settles_settleOption name g.available) fun available => settles_pure ?_
    intro hready hfresh _
    exact hplain rfl (hready hfresh)
  | dataVar d =>
    obtain ⟨key, source⟩ := d
    cases source with
    | expression e =>
      refine settles_bind (settles_settleOnly name e) fun e' => settles_pure ?_
      intro hready hfresh _
      apply hplain rfl
      exact List.forall_mem_singleton.2 (hready (List.forall_mem_singleton.1 hfresh))
    | _ => exact settles_pure fun _ _ => hplain rfl (List.forall_mem_nil _)
  | validation v =>
    refine settles_bind (settles_setupValidation name v) fun v' => settles_pure ?_
    intro hready hfresh _
    exact hplain rfl (hready hfresh)
  | model m =>
    refine settles_bind (settles_setupModel name m) fun m' => settles_pure ?_
    intro hready hfresh _
    exact hplain rfl (hready hfresh)
  | extension c =>
    refine ⟨onlyUses_setupPart hextend config name _, ?_⟩
    intro draft draft' part' _ _ hr _ _ _ _
    simp only [setupPart, Step.run_mk] at hr
    rcases ho : (extend config c draft.heap).outcome with e | u <;> rw [ho] at hr <;> cases hr
    exact hplain rfl (List.forall_mem_nil _)
  | cardinality check => exact settles_pure fun _ _ => hplain rfl (List.forall_mem_nil _)
  | unique check => exact settles_pure fun _ _ => hplain rfl (List.forall_mem_nil _)

end Formwork
