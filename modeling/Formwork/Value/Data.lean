-- What expressions are read against: a root value for some of the namespaces, and what each
-- function does with its arguments.
import Formwork.Value.Basic
import Formwork.Namespace

namespace Formwork

/-- What a function does with its positional and its named arguments. -/
abbrev FunctionBody := List Value → Ordered Value → Except Error Value

/-- The bodies of all functions, by number. -/
abbrev Functions := Nat → FunctionBody

/-- Calls a value. Only functions can be called. -/
def Value.call (functions : Functions) (args : List Value) (named : Ordered Value) :
    Value → Except Error Value
  | .function id => functions id args named
  | other => .error (.evaluation other.typeName s!"value of type {other.typeName} is not callable")

/-- What expressions are read against. -/
structure Data where
  /-- The root value of a namespace. -/
  root? : Namespace → Option Value
  functions : Functions

namespace Data

/-- No roots at all. -/
def empty (functions : Functions) : Data := ⟨fun _ => none, functions⟩

/-- Sets the root of a namespace; one that was there gives way. -/
def withRoot (ns : Namespace) (root : Value) (data : Data) : Data :=
  { data with root? := fun other => if other = ns then some root else data.root? other }

/-- The root of a namespace, or an error that names it. -/
def root (data : Data) (ns : Namespace) : Except Error Value :=
  match data.root? ns with
  | some value => .ok value
  | none => .error (.evaluation ns.text s!"no data supplied for namespace {ns.text}")

end Data

end Formwork
