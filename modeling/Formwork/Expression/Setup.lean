-- Resolving expressions. A path is followed through a heap, variable by variable; the variable at
-- its end is referred to. An operation is resolved when its operands are, the first of them that is
-- not decides. Names that are missing or have no type are no error: they end up in the state. What
-- was done to the heap and to the operands before an error stays done.
import Formwork.Expression.Basic
import Formwork.Heap.Basic

namespace Formwork

/-- What an attempt to resolve something leaves behind, whatever its outcome. -/
structure Attempt (σ α : Type) where
  outcome : Except Error α
  subject : σ
  heap : Heap

namespace Heap

/-- The variable of one hop, unless expressions may not use it. -/
def step (ns : Namespace) (parent : Option VarId) (hop : Hop) : HeapAction VarId := do
  let id ← attributeVariable ns hop.name parent
  let v ← variableAt id
  match v.denied with
  | some reason =>
    throw (.ofKind .value s!"Variable '{v.name}' can not be used here: {reason}")
  | none => return id

/-- The variable at the end of a path. -/
def follow (ns : Namespace) (root : Hop) (hops : List Hop) : HeapAction VarId := do
  hops.foldlM (fun id hop => step ns (some id) hop) (← step ns none root)

/-- Refers to a variable, and tells its name. -/
def refer (id : VarId) (owner : String) : HeapAction String := do
  addReference id owner
  return (← variableAt id).name

end Heap

/-- The state of something that fails softly, or nothing if the error is a hard one. -/
def Error.softState? {α : Type} (e : Error) : Option (Resolution α) :=
  match e with
  | .unknownName .. => some (.notFound e.text)
  | .setup .unsupported .. => some (.unsupported e.text)
  | _ => none

/-- The same state with another outcome. -/
def Resolution.map {α β : Type} (f : α → β) : Resolution α → Resolution β
  | .pending => .pending
  | .resolved outcome => .resolved (f outcome)
  | .notFound reason => .notFound reason
  | .unsupported reason => .unsupported reason

/-- Ends the setup of an expression whose hops were all followed. The variable at the end is referred
to. Only in some namespaces there may be none. -/
def Expression.conclude (owner : String) (e : Expression) (found : Option VarId) (heap : Heap) :
    Attempt Expression (Option VarId) :=
  match found with
  | some id =>
    match (Heap.refer id owner).run heap with
    | (.ok name, heap) => ⟨.ok (some id), e.withState (.resolved ⟨e.accessors, some name⟩), heap⟩
    | (.error error, heap) => ⟨.error error, e, heap⟩
  | none =>
    if e.ns.isVariableOptional then
      ⟨.ok none, e.withState (.resolved ⟨e.accessors, none⟩), heap⟩
    else ⟨.error (.internal none s!"Expression {e.text} resolved without a variable"), e, heap⟩

mutual

/-- Resolves an expression for an owner. The outcome is the variable that a resolved path ends
at. -/
def Expression.setup (owner : String) :
    Expression → Heap → Attempt Expression (Option VarId)
  | .path ns root hops .pending, heap =>
    match (Heap.follow ns root hops).run heap with
    | (.ok id, heap) => Expression.conclude owner (.path ns root hops .pending) (some id) heap
    | (.error e, heap) =>
      match e.softState? with
      | some state => ⟨.ok none, .path ns root hops state, heap⟩
      | none => ⟨.error (e.withOwner owner), .path ns root hops .pending, heap⟩
  | .computed operation hops .pending, heap =>
    match operation.setup owner heap with
    | ⟨.ok (.resolved _), operation, heap⟩ =>
      Expression.conclude owner (.computed operation hops .pending) none heap
    | ⟨.ok state, operation, heap⟩ =>
      ⟨.ok none, .computed operation hops (state.map fun _ => ⟨[], none⟩), heap⟩
    | ⟨.error e, operation, heap⟩ => ⟨.error e, .computed operation hops .pending, heap⟩
  | e, heap => ⟨.error (.internal none
      s!"Setup of {e.text} already called (status {e.state.status})"), e, heap⟩

/-- Resolves an operation for an owner. The outcome is its new state. -/
def Operation.setup (owner : String) :
    Operation → Heap → Attempt Operation (Resolution Unit)
  | .negation operand .pending, heap =>
    match operand.setup owner heap with
    | ⟨.ok state, operand, heap⟩ => ⟨.ok state, .negation operand state, heap⟩
    | ⟨.error e, operand, heap⟩ => ⟨.error e, .negation operand .pending, heap⟩
  | .binary op left right .pending, heap =>
    match left.setup owner heap with
    | ⟨.ok (.resolved _), left, heap⟩ =>
      match right.setup owner heap with
      | ⟨.ok state, right, heap⟩ => ⟨.ok state, .binary op left right state, heap⟩
      | ⟨.error e, right, heap⟩ => ⟨.error e, .binary op left right .pending, heap⟩
    | ⟨.ok state, left, heap⟩ => ⟨.ok state, .binary op left right state, heap⟩
    | ⟨.error e, left, heap⟩ => ⟨.error e, .binary op left right .pending, heap⟩
  | operation, heap => ⟨.error (.internal none
      s!"Setup of operation {operation.text} already done"), operation, heap⟩

/-- Resolves an operand for an owner. The outcome is its new state; fixed values have nothing to
resolve. -/
def Operand.setup (owner : String) : Operand → Heap → Attempt Operand (Resolution Unit)
  | .expression e, heap =>
    match e.setup owner heap with
    | ⟨.ok _, e, heap⟩ => ⟨.ok (e.state.map fun _ => ()), .expression e, heap⟩
    | ⟨.error error, e, heap⟩ => ⟨.error error, .expression e, heap⟩
  | .literal v, heap => ⟨.ok (.resolved ()), .literal v, heap⟩

end

namespace Expression

/-- Marks a path as resolved without a heap. Its root is the record at hand when it is read. -/
def setupDetached (e : Expression) : Except Error Expression :=
  match e.state, e with
  | .pending, .path .. => .ok (e.withState (.resolved ⟨e.accessors, none⟩))
  | .pending, .computed .. =>
    .error (.ofKind .value s!"Expression {e.text} can not contain operations here")
  | state, _ => .error (.internal none
      s!"Setup of {e.text} already called (status {state.status})")

/-- The error that tells why an expression is not resolved. -/
def unresolvedError (e : Expression) : Error :=
  let reason := e.state.failure?.getD "setup not called"
  let message := s!"Expression {e.text} not resolved ({e.state.status}): {reason}"
  match e.state with
  | .unsupported _ => .ofKind .unsupported message
  | .notFound _ => .unknownName none message []
  | _ => .internal none message

end Expression

namespace Heap

/-- The variable that a resolved expression ended at. -/
def byExpression? (h : Heap) (e : Expression) : Option Variable :=
  e.target?.bind fun name => h.get? e.ns name

/-- The variable that a resolved expression ended at, or an error. -/
def byExpression (h : Heap) (e : Expression) : Except Error Variable :=
  match e.target? with
  | some name => h.named e.ns name
  | none => .error (.internal none s!"Expression {e.text} is not resolved")

end Heap

end Formwork
