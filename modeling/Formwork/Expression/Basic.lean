-- Expressions. An expression is a path of attributes from a namespace, or an operation followed by
-- attributes of its result. An attribute may be called. Expressions are declared first, resolved
-- once, and then read; the state of an expression says how far it has come.
import Formwork.Expression.Operator
import Formwork.Namespace

namespace Formwork

/-! ## Parts -/

/-- The arguments that an attribute is called with. -/
structure CallArgs where
  args : List Value
  named : Ordered Value

namespace CallArgs

/-- The written form of a named argument. -/
def namedText : String × Value → String
  | (key, value) => key ++ "=" ++ value.text

/-- The written form. -/
def text (c : CallArgs) : String :=
  "(" ++ Text.listed (c.args.map Value.text ++ c.named.map namedText) ++ ")"

end CallArgs

/-- An attribute, and what it is called with if it is called. -/
structure Hop where
  name : String
  call : Option CallArgs

/-- The written form of a hop. -/
def Hop.text (hop : Hop) : String :=
  match hop.call with
  | some c => hop.name ++ c.text
  | none => hop.name

/-- The hops, each after a point. -/
def Hop.texts (hops : List Hop) : String := String.join (hops.map fun hop => "." ++ hop.text)

/-- How far something has come that is resolved once. -/
inductive Resolution (α : Type) where
  | pending
  | resolved (outcome : α)
  /-- A name was not found. -/
  | notFound (reason : String)
  /-- A name has no type that setup could follow. -/
  | unsupported (reason : String)

namespace Resolution

variable {α : Type}

/-- The written name of the state. -/
def status : Resolution α → String
  | pending => "Initialized"
  | resolved _ => "Ok"
  | notFound _ => "ErrNotFound"
  | unsupported _ => "ErrUnsupported"

/-- Whether nothing was tried yet. -/
def isPending : Resolution α → Bool
  | pending => true
  | _ => false

/-- Whether it was resolved. -/
def isResolved : Resolution α → Bool
  | resolved _ => true
  | _ => false

/-- Why it was not resolved, if it was tried and failed. -/
def failure? : Resolution α → Option String
  | notFound reason => some reason
  | unsupported reason => some reason
  | _ => none

end Resolution

/-- How a value is taken while an expression is read. -/
inductive Accessor where
  /-- An attribute of the value at hand, or of the root of the namespace at the start. -/
  | attribute (hop : Hop)
  /-- The result of the operation at a position of the path. -/
  | apply (index : Nat)

/-- What resolving an expression fixes: how it is read, and the name of the variable at the end of a
path that was followed in a heap. -/
structure Access where
  accessors : List Accessor
  target : Option String

mutual

/-- A path of attributes, or an operation followed by attributes of its result. -/
inductive Expression where
  | path (ns : Namespace) (root : Hop) (hops : List Hop) (state : Resolution Access)
  | computed (operation : Operation) (hops : List Hop) (state : Resolution Access)

/-- An operator with its operands. -/
inductive Operation where
  | negation (operand : Operand) (state : Resolution Unit)
  | binary (op : BinaryOp) (left right : Operand) (state : Resolution Unit)

/-- An expression or a fixed value. -/
inductive Operand where
  | expression (e : Expression)
  | literal (v : Value)

end

/-! ## Views -/

namespace Operation

/-- The operator. -/
def operator : Operation → Operator
  | .negation _ _ => .not
  | .binary op _ _ _ => .binary op

/-- The first operand. -/
def first : Operation → Operand
  | .negation operand _ => operand
  | .binary _ left _ _ => left

/-- The second operand, if the operator takes one. -/
def second? : Operation → Option Operand
  | .negation _ _ => none
  | .binary _ _ right _ => some right

/-- How far the operation has come. -/
def state : Operation → Resolution Unit
  | .negation _ state => state
  | .binary _ _ _ state => state

end Operation

namespace Expression

/-- How far the expression has come. -/
def state : Expression → Resolution Access
  | .path _ _ _ state => state
  | .computed _ _ state => state

/-- The namespace of a path; operations belong to the global one. -/
def ns : Expression → Namespace
  | .path ns _ _ _ => ns
  | .computed _ _ _ => .global

/-- The number of hops, an operation counted as one. -/
def depth : Expression → Nat
  | .path _ _ hops _ => hops.length + 1
  | .computed _ hops _ => hops.length + 1

/-- The attributes, operations left out. -/
def attributes : Expression → List String
  | .path _ root hops _ => root.name :: hops.map Hop.name
  | .computed _ hops _ => hops.map Hop.name

/-- The operation at the start, if there is one. -/
def operation? : Expression → Option Operation
  | .path .. => none
  | .computed operation _ _ => some operation

/-- The attribute hops, in order. -/
def hops : Expression → List Hop
  | .path _ root hops _ => root :: hops
  | .computed _ hops _ => hops

/-- The whole path: the operation, if there is one, and the attributes. -/
def parts : Expression → List (Operation ⊕ Hop)
  | .path _ root hops _ => .inr root :: hops.map .inr
  | .computed operation hops _ => .inl operation :: hops.map .inr

/-- How the expression is read, hop by hop. -/
def accessors : Expression → List Accessor
  | .path _ root hops _ => (root :: hops).map .attribute
  | .computed _ hops _ => .apply 0 :: hops.map .attribute

/-- The expression in another state. -/
def withState (state : Resolution Access) : Expression → Expression
  | .path ns root hops _ => .path ns root hops state
  | .computed operation hops _ => .computed operation hops state

/-- The name of the variable that a resolved path ended at. -/
def target? (e : Expression) : Option String :=
  match e.state with
  | .resolved access => access.target
  | _ => none

end Expression

/-! ## Written forms -/

mutual

/-- The written form of an expression. -/
def Expression.text : Expression → String
  | .path ns root hops _ => ns.text ++ Hop.texts (root :: hops)
  | .computed operation hops _ => operation.text ++ Hop.texts hops

/-- The written form of an operation, in parentheses. -/
def Operation.text : Operation → String
  | .negation operand _ => "(not " ++ operand.text ++ ")"
  | .binary op left right _ => "(" ++ left.text ++ " " ++ op.code ++ " " ++ right.text ++ ")"

/-- The written form of an operand. -/
def Operand.text : Operand → String
  | .expression e => e.text
  | .literal v => v.text

end

end Formwork
