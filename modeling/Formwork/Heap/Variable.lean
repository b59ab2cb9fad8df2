-- Variables. A variable stands for something with a type, for a component, for a data provider, for
-- a function or for an object without a type. It remembers who refers to it and which variables of
-- this heap or another one it is bound to.
import Formwork.Component.Kind
import Formwork.Namespace
import Formwork.Types.Signature

namespace Formwork

/-- The place of a variable in its heap. -/
structure VarId where
  index : Nat
deriving DecidableEq, Repr

/-- What a variable stands for. -/
inductive VariableData where
  | typed (descriptor : Descriptor)
  | component (id : Nat) (kind : ComponentKind)
  | provider (descriptor : Option Descriptor)
  | function (signature : Signature)
  | object

/-- The shape of what a variable stands for, as far as it is known without calling anything. -/
def VariableData.descriptor? : VariableData → Option Descriptor
  | .typed descriptor => some descriptor
  | .provider descriptor => descriptor
  | _ => none

/-- A variable that another one is bound to. -/
structure BoundVar where
  heap : String
  ns : Namespace
  name : String
deriving DecidableEq, Repr

/-- The written form. -/
def BoundVar.text (b : BoundVar) : String := s!"{b.heap}::{b.ns.text}.{b.name}"

/-- A variable of a heap. -/
structure Variable where
  name : String
  ns : Namespace
  data : VariableData
  /-- Why expressions may not use the variable, if they may not. -/
  denied : Option String
  /-- Those who refer to the variable, in order, once for each reference. -/
  references : List String
  /-- The variables that this one is bound to, each once. -/
  bound : List BoundVar

namespace Variable

/-- A variable that nothing refers to yet. -/
def fresh (name : String) (ns : Namespace) (data : VariableData) : Variable :=
  ⟨name, ns, data, none, [], []⟩

/-- A variable that expressions may not use. -/
def deny (v : Variable) (reason : String) : Variable := { v with denied := some reason }

/-- The shape of what the variable stands for, as far as it is known. -/
def descriptor? (v : Variable) : Option Descriptor := v.data.descriptor?

/-- Adds a reference. -/
def refer (v : Variable) (owner : String) : Variable :=
  { v with references := v.references ++ [owner] }

/-- Binds the variable to another one, unless it is bound to it already. -/
def bind (v : Variable) (b : BoundVar) : Variable :=
  if v.bound.contains b then v else { v with bound := v.bound ++ [b] }

/-- Whether one of the variables that this one is bound to has the name. -/
def isBoundTo (v : Variable) (name : String) : Bool := v.bound.any fun b => b.name == name

/-- The written form. -/
def text (v : Variable) : String :=
  v.ns.text ++ "." ++ v.name ++ (if v.denied.isSome then " (denied)" else "")

end Variable

end Formwork
