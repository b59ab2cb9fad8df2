-- Setting up components makes no models. Every step of it only uses the heap of the draft, and
-- what a draft knows of models and of the container around stays as it is; expressions that stay
-- unresolved are only added. The same is said of steps that add variables in some namespaces.
import Formwork.Component.Setup
import Formwork.Proofs.Heap.Uses

namespace Formwork

open Drafting

/-- A draft that came from another one by building up its heap, in the namespaces `mine`. -/
structure Draft.Builds (mine : Namespace → Prop) (draft draft' : Draft) : Prop where
  models : draft'.models = draft.models
  boundVariable : draft'.boundVariable = draft.boundVariable
  unresolved : draft.unresolved <+: draft'.unresolved
  heap : Heap.Builds mine draft.heap draft'.heap

/-- A draft that came from another one by using its heap. -/
abbrev Draft.Uses (draft draft' : Draft) : Prop := Draft.Builds (fun _ => False) draft draft'

variable {mine : Namespace → Prop}

theorem Draft.Builds.refl (draft : Draft) : Draft.Builds mine draft draft :=
  ⟨rfl, rfl, List.prefix_rfl, .refl draft.heap⟩

theorem Draft.Builds.trans {draft draft' draft'' : Draft} (hb : Draft.Builds mine draft draft')
    (hb' : Draft.Builds mine draft' draft'') : Draft.Builds mine draft draft'' :=
  ⟨hb'.models.trans hb.models, hb'.boundVariable.trans hb.boundVariable,
    hb.unresolved.trans hb'.unresolved, hb.heap.trans hb'.heap⟩

/-- The step only builds up the heap, whatever comes of it. -/
def OnlyBuilds {α : Type} (mine : Namespace → Prop) (step : Drafting α) : Prop :=
  ∀ draft : Draft, draft.heap.Sound → Draft.Builds mine draft (step.run draft).2

/-- The step only uses the heap, whatever comes of it. -/
abbrev OnlyUses {α : Type} (step : Drafting α) : Prop := OnlyBuilds (fun _ => False) step

theorem OnlyBuilds.builds {α : Type} {step : Drafting α} {result : Except Error α}
    {draft draft' : Draft} (h : OnlyBuilds mine step) (hs : draft.heap.Sound)
    (hr : step.run draft = (result, draft')) : Draft.Builds mine draft draft' := by
  have hbuilds := h draft hs
  rw [hr] at hbuilds
  exact hbuilds

/-! ## Putting steps together -/

section Combining

variable {α β : Type}

theorem onlyBuilds_pure (a : α) : OnlyBuilds mine (pure a) := fun draft _ => .refl draft

theorem onlyBuilds_throw (e : Error) : OnlyBuilds mine (throw e : Drafting α) :=
  fun draft _ => .refl draft

/-- After an error nothing is done. -/
theorem throw_bind (e : Error) (f : α → Drafting β) : (throw e >>= f) = throw e := rfl

theorem onlyBuilds_get : OnlyBuilds mine (get : Drafting Draft) := fun draft _ => .refl draft

theorem onlyBuilds_ofExcept (result : Except Error α) :
    OnlyBuilds mine (ofExcept result : Drafting α) := by
  intro draft _
  rw [Step.run_ofExcept]
  exact .refl draft

theorem onlyBuilds_bind {x : Drafting α} {f : α → Drafting β} (hx : OnlyBuilds mine x)
    (hf : ∀ a, OnlyBuilds mine (f a)) : OnlyBuilds mine (x >>= f) := by
  intro draft hs
  rw [Step.run_bind]
  rcases hr : x.run draft with ⟨e | a, draft'⟩
  · exact hx.builds hs hr
  · have hfirst := hx.builds hs hr
    exact hfirst.trans (hf a draft' (hfirst.heap.sound hs))

theorem onlyBuilds_onHeap {action : HeapAction α}
    (h : ∀ heap : Heap, heap.Sound → Heap.Builds mine heap (action.run heap).2) :
    OnlyBuilds mine (onHeap action) := fun draft hs =>
      ⟨rfl, rfl, List.prefix_rfl, h draft.heap hs⟩

theorem onlyBuilds_ownedBy {name : String} {step : Drafting α} (h : OnlyBuilds mine step) :
    OnlyBuilds mine (Drafting.ownedBy name step) := fun draft hs => h draft hs

theorem onlyBuilds_mapM {f : α → Drafting β} (h : ∀ a, OnlyBuilds mine (f a)) :
    ∀ items : List α, OnlyBuilds mine (items.mapM f)
  | [] => by
    rw [List.mapM_nil]
    exact onlyBuilds_pure []
  | a :: rest => by
    rw [List.mapM_cons]
    exact onlyBuilds_bind (h a) fun b => onlyBuilds_bind (onlyBuilds_mapM h rest) fun bs =>
      onlyBuilds_pure (b :: bs)

end Combining

/-! ## Expressions -/

theorem onlyUses_variableAt (id : VarId) : OnlyUses (onHeap (Heap.variableAt id)) :=
  onlyBuilds_onHeap fun heap _ => by
    rw [Heap.variableAt_heap]
    exact .refl heap

theorem onlyUses_resolve (owner : String) (e : Expression) : OnlyUses (resolve owner e) :=
  fun draft hs => ⟨rfl, rfl, List.prefix_rfl, Expression.uses_setup owner e draft.heap hs⟩

theorem onlyUses_remember (entry : Unresolved) :
    OnlyUses (modify fun draft => { draft with unresolved := draft.unresolved ++ [entry] }) :=
  fun draft _ => ⟨rfl, rfl, List.prefix_append _ _, .refl draft.heap⟩

theorem onlyUses_settle (owner : String) (e : Expression) : OnlyUses (settle owner e) := by
  unfold settle
  dsimp only
  split
  · exact onlyBuilds_pure _
  · refine onlyBuilds_bind (onlyUses_resolve owner e) ?_
    rintro ⟨e, id⟩
    dsimp only
    split
    · exact onlyBuilds_bind (onlyUses_remember _) fun _ => onlyBuilds_pure _
    · exact onlyBuilds_pure _

theorem onlyUses_settleOnly (owner : String) (e : Expression) : OnlyUses (settleOnly owner e) :=
  onlyBuilds_bind (onlyUses_settle owner e) fun _ => onlyBuilds_pure _

theorem onlyUses_settleOption (owner : String) (operand : Option Operand) :
    OnlyUses (settleOption owner operand) := by
  unfold settleOption settleOperand
  split
  · refine onlyBuilds_bind ?_ fun _ => onlyBuilds_pure _
    split
    · exact onlyBuilds_bind (onlyUses_settleOnly owner _) fun _ => onlyBuilds_pure _
    · exact onlyBuilds_pure _
  · exact onlyBuilds_pure none

/-! ## Fields -/

theorem onlyUses_settleChoices (owner : String) (limit : Nat) (spec : ChoiceSpec) :
    OnlyUses (settleChoices owner limit spec) := by
  unfold settleChoices
  simp only [throw_bind]
  split
  · split
    · exact onlyBuilds_throw _
    · split
      · exact onlyBuilds_throw _
      · exact onlyBuilds_pure _
  · exact onlyBuilds_bind (onlyBuilds_ofExcept _) fun _ => onlyBuilds_ofExcept _
  · refine onlyBuilds_bind (onlyUses_settle owner _) ?_
    rintro ⟨e, id⟩
    rcases id with _ | id
    · exact onlyBuilds_pure _
    · refine onlyBuilds_bind (onlyUses_variableAt id) fun v => ?_
      dsimp only
      split
      · exact onlyBuilds_pure _
      · exact onlyBuilds_ofExcept _

theorem onlyUses_addBound (id : VarId) (b : BoundVar) : OnlyUses (onHeap (Heap.addBound id b)) :=
  onlyBuilds_onHeap fun heap _ => Heap.uses_addBound id b heap

/-- The end of binding a field: what its resolved bind leads to, which is noted on the variable of
the field. -/
def attachField (f : Field) (bind : Expression) : Drafting (Expression × FieldBinding) := do
  let heap := (← get).heap
  let bound ← ofExcept (heap.byExpression bind)
  match bound.descriptor? with
  | none => throw (.setup .type (some f.name) s!"Bind {bind.text} has no type")
  | some descriptor =>
    let target : BoundVar := ⟨heap.name, .models, bound.name⟩
    match heap.lookup .fields f.name with
    | some id => onHeap (Heap.addBound id target)
    | none => pure ()
    return (bind, ⟨target, descriptor, heap.lookup .fields f.name⟩)

theorem bindField_eq (f : Field) :
    bindField f =
      if f.bind.ns ≠ .models then
        throw (.setup .value (some f.name)
          s!"Field bind {f.bind.text} must be in namespace {Namespace.models.text}")
      else (do
        let (bind, _) ← resolve f.name f.bind
        if !bind.state.isResolved then throw (bind.unresolvedError.withOwner f.name)
        else attachField f bind) := rfl

theorem onlyUses_attachField (f : Field) (bind : Expression) : OnlyUses (attachField f bind) := by
  unfold attachField
  refine onlyBuilds_bind onlyBuilds_get fun draft =>
    onlyBuilds_bind (onlyBuilds_ofExcept _) fun v => ?_
  dsimp only
  split
  · exact onlyBuilds_throw _
  · split
    · exact onlyBuilds_bind (onlyUses_addBound _ _) fun _ => onlyBuilds_pure _
    · exact onlyBuilds_pure _

theorem onlyUses_bindField (f : Field) : OnlyUses (bindField f) := by
  rw [bindField_eq]
  split
  · exact onlyBuilds_throw _
  · refine onlyBuilds_bind (onlyUses_resolve f.name f.bind) ?_
    rintro ⟨e, id⟩
    dsimp only
    split
    · exact onlyBuilds_throw _
    · exact onlyUses_attachField f e

theorem onlyUses_settleKind (config : Config) (f : Field) (d : Descriptor)
    (default : Option Operand) : OnlyUses (settleKind config f d default) := by
  unfold settleKind
  split
  · exact onlyBuilds_pure _
  · exact onlyBuilds_bind (onlyBuilds_ofExcept _) fun _ => onlyBuilds_pure _
  · exact onlyBuilds_bind (onlyBuilds_ofExcept _) fun _ => onlyBuilds_pure _
  · exact onlyBuilds_bind (onlyUses_settleChoices f.name _ _) fun _ => onlyBuilds_pure _

theorem onlyUses_setupField (config : Config) (f : Field) : OnlyUses (setupField config f) := by
  unfold setupField
  exact onlyBuilds_bind (onlyUses_bindField f) fun _ =>
    onlyBuilds_bind (onlyUses_settleOption f.name f.required) fun _ =>
    onlyBuilds_bind (onlyUses_settleOption f.name f.editable) fun _ =>
    onlyBuilds_bind (onlyUses_settleOption f.name f.available) fun _ =>
    onlyBuilds_bind (onlyUses_settleOption f.name f.default) fun _ =>
    onlyBuilds_bind (onlyBuilds_ownedBy (onlyUses_settleKind config f _ _)) fun _ =>
      onlyBuilds_pure _

/-! ## Parts -/

theorem onlyUses_setupValidation (name : String) (v : Validation) :
    OnlyUses (setupValidation name v) :=
  onlyBuilds_bind (onlyUses_settleOnly name v.ensure) fun _ =>
    onlyBuilds_bind (onlyUses_settleOption name v.available) fun _ => onlyBuilds_pure _

theorem onlyUses_setupHandler (name : String) (handler : Handler) :
    OnlyUses (setupHandler name handler) :=
  onlyBuilds_bind (onlyBuilds_mapM (fun (key, e) =>
    onlyBuilds_bind (onlyUses_settleOnly name e) fun e => onlyBuilds_pure (key, e)) _) fun _ =>
      onlyBuilds_pure _

theorem onlyUses_setupModel (name : String) (m : BoundModel) : OnlyUses (setupModel name m) := by
  unfold setupModel
  split
  · exact onlyBuilds_bind (onlyUses_setupHandler name _) fun _ =>
      onlyBuilds_bind (onlyUses_setupHandler name _) fun _ => onlyBuilds_pure _
  · exact onlyBuilds_pure m

/-- Setting up an extension only uses the heap of the container around it. -/
def ExtensionSetup.OnlyUses (extend : ExtensionSetup) : Prop :=
  ∀ config c (outer : Heap), outer.Sound → Heap.Uses outer (extend config c outer).heap

variable {extend : ExtensionSetup}

theorem onlyUses_setupPart (hextend : extend.OnlyUses) (config : Config) (name : String)
    (part : Part) : OnlyUses (setupPart extend config name part) := by
  cases part with
  | field f => exact onlyBuilds_bind (onlyUses_setupField config f) fun _ => onlyBuilds_pure _
  | group g => exact onlyBuilds_bind (onlyUses_settleOption name g.available) fun _ =>
      onlyBuilds_pure _
  | dataVar d =>
    unfold setupPart
    dsimp only
    split
    · exact onlyBuilds_bind (onlyUses_settleOnly name _) fun _ => onlyBuilds_pure _
    · exact onlyBuilds_pure _
  | validation v => exact onlyBuilds_bind (onlyUses_setupValidation name v) fun _ =>
      onlyBuilds_pure _
  | model m => exact onlyBuilds_bind (onlyUses_setupModel name m) fun _ => onlyBuilds_pure _
  | extension c => exact fun draft hs =>
      ⟨rfl, rfl, List.prefix_rfl, hextend config c draft.heap hs⟩
  | cardinality check => exact onlyBuilds_pure _
  | unique check => exact onlyBuilds_pure _

theorem onlyUses_setupNode (hextend : extend.OnlyUses) (config : Config) (node : Node) :
    OnlyUses (setupNode extend config node) := by
  unfold setupNode
  split
  · exact onlyBuilds_pure node
  · rcases node.part with _ | part
    · exact onlyBuilds_pure _
    · exact onlyBuilds_bind (onlyBuilds_ownedBy (onlyUses_setupPart hextend config node.name part))
        fun _ => onlyBuilds_pure _

end Formwork
