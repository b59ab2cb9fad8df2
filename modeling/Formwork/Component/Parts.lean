-- The small components: groups that are shown together, named values, and rules that data must
-- keep.
import Formwork.Expression.Read
import Formwork.Identifier
import Formwork.Types.Signature

namespace Formwork

/-- A group of components that are shown together. -/
structure Group where
  name : String
  available : Option Operand

/-- A group without a condition. -/
def Group.named (name : String) : Except Error Group := do
  checkIdentifier name
  return ⟨name, none⟩

/-- What a data variable gets its value from. -/
inductive DataSource where
  | expression (e : Expression)
  | function (signature : Signature)
  | literal (v : Value)

/-- A value under a name. -/
structure DataVar where
  name : String
  source : DataSource

namespace DataVar

/-- A data variable with a source. -/
def ofSource (name : String) (source : DataSource) : Except Error DataVar := do
  checkIdentifier name
  return ⟨name, source⟩

/-- The shape of the value, which only a function declares. -/
def descriptor (d : DataVar) : Except Error (Option Descriptor) :=
  match d.source with
  | .function signature => signature.result.map some
  | _ => .ok none

/-- The value. -/
def read (d : DataVar) (data : Data) : Except Error Value :=
  match d.source with
  | .expression e => e.read data
  | .function signature => signature.call data.functions [] []
  | .literal v => .ok v

end DataVar

/-- A rule that data must keep, and the message for data that does not. -/
structure Validation where
  name : String
  ensure : Expression
  message : String
  available : Option Operand

namespace Validation

/-- A rule with a message. -/
def ofExpression (name : String) (ensure : Expression) (message : String) :
    Except Error Validation := do
  checkIdentifier name
  if message.isEmpty then throw (.ofKind .value s!"Validation {name} needs a message")
  return ⟨name, ensure, message, none⟩

/-- Whether the data keeps the rule. A violation is an error if `raise` is set. -/
def validate (v : Validation) (data : Data) (raise : Bool) : Except Error Bool := do
  let value ← v.ensure.read data
  if !value.isTruthy && raise then throw (.validation v.name v.message)
  return value.isTruthy

end Validation

end Formwork
