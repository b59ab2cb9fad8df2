-- Reading resolved expressions. A path starts at the root of its namespace, an operation at its
-- result, and each hop takes an attribute and calls it if it has call arguments. An error of
-- evaluation is reported for the whole expression that is read.
import Formwork.Expression.Basic
import Formwork.Value.Data

namespace Formwork

/-- Takes an attribute of a value, and calls it if the hop has call arguments. -/
def Hop.read (functions : Functions) (base : Value) (hop : Hop) : Except Error Value := do
  let value ← base.getAttr hop.name
  match hop.call with
  | some c => value.call functions c.args c.named
  | none => return value

/-- Takes one hop after the other. -/
def Hop.readAll (functions : Functions) (base : Value) (hops : List Hop) : Except Error Value :=
  hops.foldlM (Hop.read functions) base

/-- Reports an error of evaluation for a whole expression. -/
def Error.relabel (expression : String) : Error → Error
  | .evaluation _ message => .evaluation expression message
  | e => e

/-- The error for an operator that has no result. -/
def OperatorFault.error (operation : String) (op : BinaryOp) (left right : Value) :
    OperatorFault → Error
  | .abort => .aborted
  | fault => .evaluation operation (fault.message op left right)

/-- The error for an operation that is applied before it is resolved. -/
def Operation.unready (operation : Operation) : Error :=
  .internal none ("Operation " ++ operation.text ++ " applied before a successful setup (status "
    ++ operation.state.status ++ ")")

/-- The error for an expression that is read before it is resolved. -/
def Expression.unready (e : Expression) : Error :=
  .internal none ("Expression " ++ e.text ++ " read before a successful setup (status "
    ++ e.state.status ++ ")")

/-- The error for a hop that is read as an operation and is none. -/
def Expression.notApplicable (e : Expression) (index : Nat) : Error :=
  .internal none s!"Hop {index} of {e.text} is not an operation"

/-- Takes a value through an accessor. `applied` has the results of the operations of the path. -/
def Accessor.read (data : Data) (e : Expression) (applied : Nat → Except Error Value)
    (current : Option Value) : Accessor → Except Error Value
  | .attribute hop => do
    let base ← match current with
      | some v => pure v
      | none => data.root e.ns
    (hop.read data.functions base).mapError (Error.relabel e.text)
  | .apply index => (applied index).mapError (Error.relabel e.text)

/-- Takes a value through one accessor after the other. -/
def Access.read (data : Data) (e : Expression) (applied : Nat → Except Error Value)
    (access : Access) : Except Error Value := do
  let last ← access.accessors.foldlM
    (fun current accessor => some <$> accessor.read data e applied current) none
  match last with
  | some v => return v
  | none => throw (.internal none s!"Expression {e.text} has no accessors")

mutual

/-- The value of a resolved expression. -/
def Expression.read (data : Data) : Expression → Except Error Value
  | .path ns root hops state =>
    let e := Expression.path ns root hops state
    match state with
    | .resolved access => access.read data e fun index => .error (e.notApplicable index)
    | _ => .error e.unready
  | .computed operation hops state =>
    let e := Expression.computed operation hops state
    match state with
    | .resolved access => access.read data e fun index =>
      if index = 0 then operation.apply data else .error (e.notApplicable index)
    | _ => .error e.unready

/-- The value of a resolved operation. Both operands are read before the operator is applied. -/
def Operation.apply (data : Data) : Operation → Except Error Value
  | .negation operand state =>
    match state with
    | .resolved _ => do
      let value ← operand.read data
      return .boolean !value.isTruthy
    | _ => .error (Operation.negation operand state).unready
  | .binary op left right state =>
    match state with
    | .resolved _ => do
      let l ← left.read data
      let r ← right.read data
      (op.apply l r).mapError
        (OperatorFault.error (Operation.binary op left right state).text op l r)
    | _ => .error (Operation.binary op left right state).unready

/-- The value of an operand. -/
def Operand.read (data : Data) : Operand → Except Error Value
  | .expression e => e.read data
  | .literal v => .ok v

end

end Formwork
