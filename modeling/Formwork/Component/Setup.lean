-- Setting up components. Every component resolves its own expressions against the heap of its
-- container. Expressions that stay unresolved are remembered, except the bind of a field, without
-- which the field can not be used.
import Formwork.Component.Basic
import Formwork.Expression.Setup

namespace Formwork

/-! ## Drafts -/

/-- What a setup has made so far. -/
structure Draft where
  heap : Heap
  models : Ordered ModelInfo
  boundVariable : Option BoundVar
  unresolved : List Unresolved

/-- A step of a setup. What was made before an error stays. -/
abbrev Drafting := ExceptT Error (StateM Draft)

namespace Drafting

/-- A step on the heap. -/
def onHeap {α : Type} (action : HeapAction α) : Drafting α :=
  ExceptT.mk fun draft =>
    let (outcome, heap) := action.run draft.heap
    (outcome, { draft with heap })

/-- A step whose error is reported for an owner. -/
def ownedBy {α : Type} (name : String) (step : Drafting α) : Drafting α :=
  ExceptT.adapt (Error.withOwner name) step

/-- Resolves an expression for an owner. -/
def resolve (owner : String) (e : Expression) : Drafting (Expression × Option VarId) :=
  ExceptT.mk fun draft =>
    let attempt := e.setup owner draft.heap
    (attempt.outcome.map fun id => (attempt.subject, id), { draft with heap := attempt.heap })

/-- Resolves an expression unless that was tried before, and remembers it if it stays
unresolved. -/
def settle (owner : String) (e : Expression) : Drafting (Expression × Option VarId) := do
  if !e.state.isPending then return (e, none)
  let (e, id) ← resolve owner e
  if !e.state.isResolved then
    let entry : Unresolved := ⟨owner, e.text, e.state.status, e.state.failure?.getD ""⟩
    modify fun draft => { draft with unresolved := draft.unresolved ++ [entry] }
  return (e, id)

/-- Resolves an expression where only its new state matters. -/
def settleOnly (owner : String) (e : Expression) : Drafting Expression :=
  return (← settle owner e).1

/-- Resolves the expression of an operand. -/
def settleOperand (owner : String) : Operand → Drafting Operand
  | .expression e => return .expression (← settleOnly owner e)
  | .literal v => return .literal v

/-- Resolves the expression of an operand that may be missing. -/
def settleOption (owner : String) : Option Operand → Drafting (Option Operand)
  | some operand => return some (← settleOperand owner operand)
  | none => return none

end Drafting

open Drafting

/-! ## Fields -/

/-- A boolean field needs a single truth value. -/
def checkBoolean (d : Descriptor) : Except Error Unit :=
  if d.underlying.scalar? == some .bool && !d.isList then .ok ()
  else .error (.ofKind .type
    s!"Boolean field needs a bool attribute, got {d.declared.text}")

/-- The enum of a field: its own one if that suits the attribute, the attribute's one otherwise. -/
def chooseEnum (explicit : Option EnumType) (d : Descriptor) : Except Error EnumType :=
  match explicit, d.underlying with
  | none, .enum bound => .ok bound
  | none, other => .error (.ofKind .type
      s!"Enum field needs an enum attribute or an explicit enum, got {other.text}")
  | some e, other =>
    let suits := match other with
      | .enum bound => e.equal bound
      | .scalar scalar => scalar == e.valueType
      | .model _ => false
    if suits then .ok e
    else .error (.ofKind .type (s!"Enum {e.name} holds {e.valueType.text} values, "
      ++ s!"bound attribute is {other.text}"))

/-- The enum of a field, of which a fixed default must be a member. -/
def checkEnum (explicit : Option EnumType) (d : Descriptor) (default : Option Operand) :
    Except Error EnumType := do
  let e ← chooseEnum explicit d
  match default with
  | some (.literal value) =>
    if e.containsValue value then return e
    else throw (.ofKind .value s!"Default {value.text} is not a member of {e.name}")
  | _ => return e

/-- Resolves an attribute of the choices: a single attribute of the current record that the type of
the choices has. No heap takes part, since the record is known only when choices are read. -/
def resolveChoiceAttr (e : Expression) (record : Descriptor) (maxSuggestions : Nat) :
    Except Error (Expression × Descriptor) := do
  if e.ns ≠ .this ∨ e.depth ≠ 1 then
    throw (.ofKind .value
      s!"Choice attribute {e.text} must be a single attribute of {Namespace.this.text}")
  match e.attributes.head? with
  | none => throw (.internal none s!"Expression {e.text} has no attribute")
  | some name =>
    let descriptor ← record.attr name maxSuggestions
    return (← e.setupDetached, descriptor)

/-- Resolves the attributes of choices whose type is known. The label must be a text. -/
def resolveChoiceAttrs (spec : ChoiceSpec) (record : Descriptor) (maxSuggestions : Nat) :
    Except Error ChoiceSpec := do
  if !record.isList then
    throw (.ofKind .value s!"Choices must be a list, got {record.declared.text}")
  let value ← spec.value.mapM fun e => return (← resolveChoiceAttr e record maxSuggestions).1
  let label ← spec.label.mapM fun e => do
    let (e, descriptor) ← resolveChoiceAttr e record maxSuggestions
    if descriptor.underlying.scalar? != some .str then
      throw (.ofKind .type
        s!"Choice label {e.text} must be a string, got {descriptor.underlying.text}")
    return e
  return { spec with value, label }

/-- Sets up the choices of a field. Choices without a known type are left to runtime. -/
def settleChoices (owner : String) (maxSuggestions : Nat) (spec : ChoiceSpec) :
    Drafting ChoiceSpec := do
  match spec.choices with
  | .options options =>
    if options.isEmpty then
      throw (.ofKind .value "Choice field needs at least one option")
    if spec.value.isSome || spec.label.isSome then
      throw (.ofKind .value "Fixed options can not use choice value or label")
    return spec
  | .function signature =>
    let record ← ofExcept signature.result
    ofExcept (resolveChoiceAttrs spec record maxSuggestions)
  | .expression e =>
    let (e, id) ← settle owner e
    let spec := { spec with choices := .expression e }
    match id with
    | none => return spec
    | some id =>
      match (← onHeap (Heap.variableAt id)).descriptor? with
      | none => return spec
      | some record => ofExcept (resolveChoiceAttrs spec record maxSuggestions)

/-- Binds a field to its attribute: the resolved bind, and what it leads to. -/
def bindField (f : Field) : Drafting (Expression × FieldBinding) := do
  if f.bind.ns ≠ .models then
    throw (.setup .value (some f.name)
      s!"Field bind {f.bind.text} must be in namespace {Namespace.models.text}")
  let (bind, _) ← resolve f.name f.bind
  if !bind.state.isResolved then throw (bind.unresolvedError.withOwner f.name)
  let heap := (← get).heap
  let bound ← ofExcept (heap.byExpression bind)
  match bound.descriptor? with
  | none => throw (.setup .type (some f.name) s!"Bind {bind.text} has no type")
  | some descriptor =>
    let target : BoundVar := ⟨heap.name, .models, bound.name⟩
    let own := heap.lookup .fields f.name
    match own with
    | some id => onHeap (Heap.addBound id target)
    | none => pure ()
    return (bind, ⟨target, descriptor, own⟩)

/-- Sets up the kind of a field: what it asks of the attribute, and its choices. -/
def settleKind (config : Config) (f : Field) (d : Descriptor) (default : Option Operand) :
    Drafting FieldKind := do
  match f.kind with
  | .input => return FieldKind.input
  | .boolean =>
    ofExcept (checkBoolean d)
    return FieldKind.boolean
  | .enum explicit => return FieldKind.enum (some (← ofExcept (checkEnum explicit d default)))
  | .choice spec => return FieldKind.choice (← settleChoices f.name config.maxSuggestions spec)

/-- Sets up a field: its bind, its conditions, and its kind. -/
def setupField (config : Config) (f : Field) : Drafting Field := do
  let (bind, binding) ← bindField f
  let required ← settleOption f.name f.required
  let editable ← settleOption f.name f.editable
  let available ← settleOption f.name f.available
  let default ← settleOption f.name f.default
  let kind ← Drafting.ownedBy f.name (settleKind config f binding.descriptor default)
  return { f with bind, kind, required, editable, available, default, binding := some binding }

/-! ## Parts -/

/-- How an extension is set up inside the container around it. -/
abbrev ExtensionSetup := Config → Container → Heap → Attempt Container Unit

/-- Sets up a rule. -/
def setupValidation (name : String) (v : Validation) : Drafting Validation := do
  let ensure ← settleOnly name v.ensure
  let available ← settleOption name v.available
  return { v with ensure, available }

/-- Resolves the expressions that a function of a model takes parameters from. -/
def setupHandler (name : String) (h : Handler) : Drafting Handler := do
  let inject ← h.inject.mapM fun (key, e) => do return (key, ← settleOnly name e)
  return { h with inject }

/-- Sets up a model. Models that expressions lead to are resolved when they are registered. -/
def setupModel (name : String) (m : BoundModel) : Drafting BoundModel := do
  match m.source with
  | .handlers load save =>
    let load ← setupHandler name load
    let save ← setupHandler name save
    return { m with source := .handlers load save }
  | _ => return m

/-- Sets up a part. -/
def setupPart (extend : ExtensionSetup) (config : Config) (name : String) :
    Part → Drafting Part
  | .field f => return .field (← setupField config f)
  | .group g => return .group { g with available := ← settleOption name g.available }
  | .dataVar d =>
    match d.source with
    | .expression e => return .dataVar { d with source := .expression (← settleOnly name e) }
    | _ => return .dataVar d
  | .validation v => return .validation (← setupValidation name v)
  | .model m => return .model (← setupModel name m)
  | .extension c => ExceptT.mk fun draft =>
      let attempt := extend config c draft.heap
      (attempt.outcome.map fun _ => .extension attempt.subject,
        { draft with heap := attempt.heap })
  | .cardinality check => return .cardinality check
  | .unique check => return .unique check

/-- Sets up a node, once. Its name is the owner of whatever error it meets. -/
def setupNode (extend : ExtensionSetup) (config : Config) (node : Node) : Drafting Node := do
  if node.finished then return node
  match node.part with
  | none => return { node with finished := true }
  | some part =>
    let part ← Drafting.ownedBy node.name (setupPart extend config node.name part)
    return { node with part := some part, finished := true }

end Formwork
