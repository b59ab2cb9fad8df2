-- Functions with a declared signature. Parameters may be untyped; the result can be bound only if
-- its type is declared and is not the absent marker.
import Formwork.Types.Descriptor
import Formwork.Value.Data

namespace Formwork

/-- A parameter; without a type it takes anything. -/
structure Parameter where
  name : String
  declared : Option DeclaredType

/-- A function with a declared signature. -/
structure Signature where
  name : String
  parameters : List Parameter
  returns : Option DeclaredType
  /-- The number of the body, if there is one. -/
  body : Option Nat

namespace Signature

/-- The first parameter with a name. -/
def parameter? (f : Signature) (name : String) : Option Parameter :=
  f.parameters.find? fun p => p.name == name

/-- The shape of the result. -/
def result (f : Signature) : Except Error Descriptor :=
  match f.returns with
  | none => .error (.ofKind .name s!"Function '{f.name}' has no return type")
  | some .absent => .error (.ofKind .name s!"Function '{f.name}' returns nothing")
  | some declared => declared.describe .function

/-- Calls the body. -/
def call (functions : Functions) (f : Signature) (args : List Value) (named : Ordered Value) :
    Except Error Value :=
  match f.body with
  | some id => functions id args named
  | none => .error (.evaluation f.name "function has no implementation")

/-- The written form of a parameter. -/
def parameterText (p : Parameter) : String :=
  match p.declared with
  | some declared => p.name ++ ": " ++ declared.text
  | none => p.name

/-- The written form. -/
def text (f : Signature) : String :=
  f.name ++ "(" ++ Text.listed (f.parameters.map parameterText) ++ ")"
    ++ match f.returns with
      | some declared => " -> " ++ declared.text
      | none => ""

end Signature

end Formwork
