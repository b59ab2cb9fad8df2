-- Setting up components in order. Every step of a component is orderly on a draft with an open heap
-- if the expressions of the component were never set up, and leaves honest expressions behind.
import Formwork.Proofs.Component.Settling
import Formwork.Proofs.Expression.Orderly

namespace Formwork

open Drafting

/-! ## Drafts -/

/-- The heap of the draft is open. -/
def Draft.Open (draft : Draft) : Prop := draft.heap.Open

/-- All of the expressions are honest. -/
def AllHonest (es : List Expression) : Prop := ∀ e ∈ es, e.Honest

variable {draft : Draft}

theorem orderly_onHeap {α : Type} {action : HeapAction α} {Q : α → Heap → Prop}
    (h : Orderly Heap.Open action draft.heap Q) :
    Orderly Draft.Open (onHeap action) draft fun a draft' => Q a draft'.heap :=
  ⟨h.keeps, h.inOrder, h.result⟩

/-! ## Expressions -/

theorem orderly_resolve (owner : String) {e : Expression} (hfresh : e.Fresh) (ho : draft.Open) :
    Orderly Draft.Open (resolve owner e) draft fun result draft' =>
      (e.setup owner draft.heap).outcome = .ok result.2 ∧
        result.1 = (e.setup owner draft.heap).subject ∧
        draft'.heap = (e.setup owner draft.heap).heap := by
  have hopen := e.setup_open owner ho
  have hrun : (resolve owner e).run draft =
      ((e.setup owner draft.heap).outcome.map fun id => ((e.setup owner draft.heap).subject, id),
        { draft with heap := (e.setup owner draft.heap).heap }) := rfl
  rcases hs : (e.setup owner draft.heap).outcome with error | found <;> rw [hs] at hrun
  · exact orderly_of_error hrun hopen (hfresh.setup_inOrder owner ho error hs)
  · exact orderly_of_ok hrun hopen ⟨rfl, rfl, rfl⟩

/-- The first setup of an expression leaves an honest one, and finds a variable that is there. -/
theorem orderly_settle (owner : String) {e : Expression} (hfresh : e.Fresh) (ho : draft.Open) :
    Orderly Draft.Open (settle owner e) draft fun result draft' => result.1.Honest ∧
      ∀ id ∈ result.2, ∃ v, draft'.heap.find? id = some v := by
  unfold settle
  rw [hfresh.pending]
  refine orderly_bind (orderly_resolve owner hfresh ho) ?_
  rintro ⟨e', found⟩ draft₁ ho₁ ⟨hs, rfl, hheap⟩
  have hresult : (e.setup owner draft.heap).subject.Honest ∧
      ∀ id ∈ found, ∃ v, (e.setup owner draft.heap).heap.find? id = some v := by
    refine ⟨hfresh.honest_setup owner draft.heap, fun id hid => ?_⟩
    obtain ⟨v, hv, _⟩ := (Expression.setup_found owner e draft.heap found hs).2 id hid
    exact ⟨v, hv⟩
  dsimp only
  split
  · exact orderly_of_ok rfl ho₁ (hheap ▸ hresult)
  · exact orderly_pure ho₁ (hheap ▸ hresult)

theorem orderly_settleOnly (owner : String) {e : Expression} (hfresh : e.Fresh) (ho : draft.Open) :
    Orderly Draft.Open (settleOnly owner e) draft fun e' _ => e'.Honest :=
  orderly_bind (orderly_settle owner hfresh ho) fun _ _ ho₁ h => orderly_pure ho₁ h.1

theorem orderly_settleOperand (owner : String) {operand : Operand}
    (hfresh : AllFresh operand.expressions) (ho : draft.Open) :
    Orderly Draft.Open (settleOperand owner operand) draft fun operand' _ =>
      AllHonest operand'.expressions := by
  cases operand with
  | expression e =>
    refine orderly_bind (orderly_settleOnly owner (List.forall_mem_singleton.1 hfresh) ho) ?_
    intro e' draft₁ ho₁ he'
    exact orderly_pure ho₁ (List.forall_mem_singleton.2 he')
  | literal v => exact orderly_pure ho (List.forall_mem_nil _)

theorem orderly_settleOption (owner : String) {operand : Option Operand}
    (hfresh : AllFresh (operand.toList.flatMap Operand.expressions)) (ho : draft.Open) :
    Orderly Draft.Open (settleOption owner operand) draft fun operand' _ =>
      AllHonest (operand'.toList.flatMap Operand.expressions) := by
  cases operand with
  | none => exact orderly_pure ho (List.forall_mem_nil _)
  | some operand =>
    rw [Option.toList_some, List.flatMap_singleton] at hfresh
    refine orderly_bind (orderly_settleOperand owner hfresh ho) fun operand' draft₁ ho₁ h =>
      orderly_pure ho₁ ?_
    rw [Option.toList_some, List.flatMap_singleton]
    exact h

/-! ## Choices -/

theorem Expression.setupDetached_inOrder {e : Expression} (hfresh : e.Fresh) :
    InOrder e.setupDetached := by
  have hpending := hfresh.pending
  cases e <;> obtain rfl := hpending
  · exact inOrder_ok _
  · exact inOrder_error rfl

/-- A single attribute of the current record has a name. -/
theorem resolveChoiceAttr_inOrder {e : Expression} (hfresh : e.Fresh) (record : Descriptor)
    (limit : Nat) : InOrder (resolveChoiceAttr e record limit) := by
  unfold resolveChoiceAttr
  by_cases hplace : e.ns ≠ .this ∨ e.depth ≠ 1
  · rw [if_pos hplace]
    exact inOrder_error rfl
  · rw [if_neg hplace]
    cases e with
    | path =>
      exact (Descriptor.attr_inOrder _ _ _).bind fun _ _ =>
        (Expression.setupDetached_inOrder hfresh).bind fun _ _ => inOrder_ok _
    | computed => exact absurd (.inl nofun) hplace

theorem resolveChoiceAttrs_inOrder {spec : ChoiceSpec} (hfresh : AllFresh spec.attributes)
    (record : Descriptor) (limit : Nat) : InOrder (resolveChoiceAttrs spec record limit) := by
  obtain ⟨hvalue, hlabel⟩ := List.forall_mem_append.1 hfresh
  unfold resolveChoiceAttrs
  split
  · exact inOrder_error rfl
  refine (inOrder_option fun e he => ?_).bind fun value _ =>
    (inOrder_option fun e he => ?_).bind fun label _ => inOrder_ok _
  · exact (resolveChoiceAttr_inOrder (hvalue e (Option.mem_toList.2 he)) _ _).bind fun _ _ =>
      inOrder_ok _
  · refine (resolveChoiceAttr_inOrder (hlabel e (Option.mem_toList.2 he)) _ _).bind fun _ _ => ?_
    dsimp only
    split
    · exact inOrder_error rfl
    · exact inOrder_ok _

/-- Attributes of choices whose shape is known are honest once they are resolved. -/
theorem orderly_resolveChoiceAttrs {spec : ChoiceSpec} (hfresh : AllFresh spec.attributes)
    (hchoices : AllHonest spec.choices.expressions) (record : Descriptor) (limit : Nat)
    (ho : draft.Open) :
    Orderly Draft.Open (ofExcept (resolveChoiceAttrs spec record limit)) draft fun spec' _ =>
      AllHonest (spec'.choices.expressions ++ spec'.attributes) := by
  refine orderly_ofExcept ho (resolveChoiceAttrs_inOrder hfresh record limit) fun spec' h => ?_
  obtain ⟨hsame, hready⟩ := resolveChoiceAttrs_ready h
  rw [hsame]
  exact List.forall_mem_append.2 ⟨hchoices, fun e he => (hready e he).honest⟩

theorem orderly_settleChoices (owner : String) (limit : Nat) {spec : ChoiceSpec}
    (hchoices : AllFresh spec.choices.expressions) (hattributes : AllFresh spec.attributes)
    (ho : draft.Open) :
    Orderly Draft.Open (settleChoices owner limit spec) draft fun spec' _ =>
      AllHonest (spec'.choices.expressions ++ spec'.attributes) := by
  have hkept : AllHonest spec.attributes := fun e he => (hattributes e he).honest
  unfold settleChoices
  simp only [throw_bind]
  split
  · rename_i options hoptions
    split
    · exact orderly_throw ho rfl
    · split
      · exact orderly_throw ho rfl
      · refine orderly_pure ho ?_
        rw [hoptions]
        exact hkept
  · rename_i signature hsignature
    refine orderly_ofExcept_bind ho signature.result_inOrder fun record _ => ?_
    refine orderly_resolveChoiceAttrs hattributes ?_ record limit ho
    rw [hsignature]
    exact List.forall_mem_nil _
  · rename_i e he
    rw [he] at hchoices
    refine orderly_bind (orderly_settle owner (List.forall_mem_singleton.1 hchoices) ho) ?_
    rintro ⟨e', found⟩ draft₁ ho₁ ⟨hhonest, hfound⟩
    have hboth : AllHonest ([e'] ++ spec.attributes) :=
      List.forall_mem_append.2 ⟨List.forall_mem_singleton.2 hhonest, hkept⟩
    dsimp only
    split
    · exact orderly_pure ho₁ hboth
    · rename_i id
      obtain ⟨v, hv⟩ := hfound id rfl
      refine orderly_bind (orderly_onHeap (Heap.orderly_variableAt ho₁ hv)) ?_
      intro w draft₂ ho₂ _
      split
      · exact orderly_pure ho₂ hboth
      · have hattributes' : AllFresh { spec with choices := .expression e' : ChoiceSpec}.attributes :=
          hattributes
        exact orderly_resolveChoiceAttrs hattributes' (List.forall_mem_singleton.2 hhonest) _ limit ho₂

/-! ## Fields -/

theorem checkBoolean_inOrder (d : Descriptor) : InOrder (checkBoolean d) := by
  unfold checkBoolean
  split
  · exact inOrder_ok _
  · exact inOrder_error rfl

theorem checkEnum_inOrder (explicit : Option EnumType) (d : Descriptor) (default : Option Operand) :
    InOrder (checkEnum explicit d default) := by
  have hchoose : InOrder (chooseEnum explicit d) := by
    unfold chooseEnum
    split
    · exact inOrder_ok _
    · exact inOrder_error rfl
    · dsimp only
      split_ifs
      · exact inOrder_ok _
      · exact inOrder_error rfl
  unfold checkEnum
  refine hchoose.bind fun e _ => ?_
  split
  · split
    · exact inOrder_ok _
    · exact inOrder_error rfl
  · exact inOrder_ok _

theorem orderly_attachField (f : Field) {bind : Expression} {name : String}
    (ht : bind.target? = some name) (ho : draft.Open) :
    Orderly Draft.Open (attachField f bind) draft fun result _ => result.1 = bind := by
  unfold attachField
  refine orderly_get_bind (orderly_ofExcept_bind ho (Heap.byExpression_inOrder ht) fun v _ => ?_)
  dsimp only
  split
  · exact orderly_throw ho rfl
  · split
    · rename_i id hid
      obtain ⟨w, hw⟩ := ho.find?_of_lookup hid
      exact orderly_bind (orderly_onHeap (Heap.orderly_addBound ho hw _)) fun _ _ ho₁ _ =>
        orderly_pure ho₁ rfl
    · exact orderly_pure ho rfl

theorem orderly_bindField {f : Field} (hfresh : f.bind.Fresh) (ho : draft.Open) :
    Orderly Draft.Open (bindField f) draft fun result _ => result.1.Honest := by
  rw [bindField_eq]
  split
  · exact orderly_throw ho rfl
  · rename_i hns
    have hns : f.bind.ns = .models := Decidable.not_not.1 hns
    refine orderly_bind (orderly_resolve f.name hfresh ho) ?_
    rintro ⟨bind, found⟩ draft₁ ho₁ ⟨hs, rfl, _⟩
    dsimp only
    rcases hr : (f.bind.setup f.name draft.heap).subject.state.isResolved with _ | _
    · refine orderly_throw ho₁ ?_
      rw [Error.isInternal_withOwner]
      exact Expression.unresolvedError_setup hns hs hr
    · obtain ⟨name, ht⟩ := Expression.target?_of_resolved hns hs hr
      refine (orderly_attachField f ht ho₁).mono fun result _ hsame => ?_
      rw [hsame]
      exact hfresh.honest_setup f.name draft.heap

/-- Only choices have expressions, and they are honest. -/
theorem orderly_settleKind (config : Config) {f : Field} (d : Descriptor) (default : Option Operand)
    (hchoices : AllFresh (f.kind.choices?.toList.flatMap fun spec => spec.choices.expressions))
    (hattributes : AllFresh (f.kind.choices?.toList.flatMap ChoiceSpec.attributes))
    (ho : draft.Open) :
    Orderly Draft.Open (settleKind config f d default) draft fun kind _ =>
      AllHonest (kind.choices?.toList.flatMap fun spec => spec.choices.expressions) ∧
        AllHonest (kind.choices?.toList.flatMap ChoiceSpec.attributes) := by
  have hnothing : AllHonest [] ∧ AllHonest [] := ⟨List.forall_mem_nil _, List.forall_mem_nil _⟩
  unfold settleKind
  generalize f.kind = kind at hchoices hattributes ⊢
  rcases kind with _ | _ | spec | explicit <;> dsimp only
  · exact orderly_pure ho hnothing
  · exact orderly_ofExcept_bind ho (checkBoolean_inOrder d) fun _ _ => orderly_pure ho hnothing
  · simp only [FieldKind.choices?, Option.toList_some, List.flatMap_singleton] at hchoices hattributes
    refine orderly_bind (orderly_settleChoices f.name config.maxSuggestions hchoices hattributes ho) ?_
    intro spec' draft₁ ho₁ h
    refine orderly_pure ho₁ ?_
    simp only [FieldKind.choices?, Option.toList_some, List.flatMap_singleton]
    exact List.forall_mem_append.1 h
  · exact orderly_ofExcept_bind ho (checkEnum_inOrder _ _ _) fun _ _ => orderly_pure ho hnothing

theorem orderly_setupField (config : Config) {f : Field} (hfresh : AllFresh f.expressions)
    (hattributes : AllFresh (f.kind.choices?.toList.flatMap ChoiceSpec.attributes))
    (ho : draft.Open) :
    Orderly Draft.Open (setupField config f) draft fun f' _ => AllHonest f'.expressions ∧
      AllHonest (f'.kind.choices?.toList.flatMap ChoiceSpec.attributes) := by
  unfold Field.expressions at hfresh
  simp only [AllFresh, List.forall_mem_append] at hfresh
  obtain ⟨⟨⟨⟨⟨hbind, hrequired⟩, heditable⟩, havailable⟩, hdefault⟩, hchoices⟩ := hfresh
  unfold setupField
  refine orderly_bind (orderly_bindField (List.forall_mem_singleton.1 hbind) ho) ?_
  rintro ⟨bind, binding⟩ draft₁ ho₁ hbind'
  refine orderly_bind (orderly_settleOption f.name hrequired ho₁) fun required draft₂ ho₂ h₂ => ?_
  refine orderly_bind (orderly_settleOption f.name heditable ho₂) fun editable draft₃ ho₃ h₃ => ?_
  refine orderly_bind (orderly_settleOption f.name havailable ho₃) fun available draft₄ ho₄ h₄ => ?_
  refine orderly_bind (orderly_settleOption f.name hdefault ho₄) fun default draft₅ ho₅ h₅ => ?_
  refine orderly_bind (orderly_adapt (orderly_settleKind config binding.descriptor default hchoices
    hattributes ho₅)) ?_
  rintro kind draft₆ ho₆ ⟨hkind, hattributes'⟩
  refine orderly_pure ho₆ ⟨?_, hattributes'⟩
  unfold Field.expressions
  simp only [AllHonest, List.forall_mem_append]
  exact ⟨⟨⟨⟨⟨List.forall_mem_singleton.2 hbind', h₂⟩, h₃⟩, h₄⟩, h₅⟩, hkind⟩

/-! ## Rules and models -/

theorem orderly_setupValidation (name : String) {v : Validation}
    (hfresh : AllFresh (Part.validation v).expressions) (ho : draft.Open) :
    Orderly Draft.Open (setupValidation name v) draft fun v' _ =>
      AllHonest (Part.validation v').expressions := by
  obtain ⟨hensure, havailable⟩ := List.forall_mem_cons.1 hfresh
  refine orderly_bind (orderly_settleOnly name hensure ho) fun ensure draft₁ ho₁ h₁ => ?_
  refine orderly_bind (orderly_settleOption name havailable ho₁) fun available draft₂ ho₂ h₂ => ?_
  exact orderly_pure ho₂ (List.forall_mem_cons.2 ⟨h₁, h₂⟩)

theorem orderly_setupHandler (name : String) {handler : Handler}
    (hfresh : AllFresh (handler.inject.map Prod.snd)) (ho : draft.Open) :
    Orderly Draft.Open (setupHandler name handler) draft fun handler' _ =>
      AllHonest (handler'.inject.map Prod.snd) := by
  refine orderly_bind (orderly_mapM (R := fun _ entry' => entry'.2.Honest) ho ?_) ?_
  · rintro ⟨key, e⟩ hm draft₁ ho₁
    refine orderly_bind (orderly_settleOnly name (hfresh e (List.mem_map_of_mem hm)) ho₁) ?_
    intro e' draft₂ ho₂ he'
    exact orderly_pure ho₂ he'
  · intro inject draft₁ ho₁ hinject
    refine orderly_pure ho₁ (List.forall_mem_map.2 fun entry hentry => ?_)
    obtain ⟨_, _, hhonest⟩ := hinject entry hentry
    exact hhonest

theorem orderly_setupModel (name : String) {m : BoundModel} (hfresh : AllFresh m.source.injected)
    (ho : draft.Open) :
    Orderly Draft.Open (setupModel name m) draft fun m' _ => AllHonest m'.source.injected := by
  have hkept : AllHonest m.source.injected := fun e he => (hfresh e he).honest
  unfold setupModel
  split
  · rename_i load save hsource
    rw [hsource] at hfresh
    obtain ⟨hload, hsave⟩ := List.forall_mem_append.1 hfresh
    refine orderly_bind (orderly_setupHandler name hload ho) fun load' draft₁ ho₁ h₁ => ?_
    refine orderly_bind (orderly_setupHandler name hsave ho₁) fun save' draft₂ ho₂ h₂ => ?_
    exact orderly_pure ho₂ (List.forall_mem_append.2 ⟨h₁, h₂⟩)
  · exact orderly_pure ho hkept

end Formwork
