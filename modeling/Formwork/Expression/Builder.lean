-- Building expressions. Extending an expression by an attribute starts a new one that is not
-- resolved; recording call arguments keeps the state. An attribute is called at most once, and
-- operations are not called.
import Formwork.Expression.Basic

namespace Formwork

/-- Names that no attribute can have. -/
def reservedNames : List String := ["Path", "Read", "Setup", "GetNamespace", "Value"]

/-- Refuses the empty name, names with a leading underscore and reserved names. -/
def checkAttribute (name : String) : Except Error Unit :=
  if name.isEmpty then .error (.ofKind .name "Attribute name can not be empty")
  else if name.toList.head? == some '_' || reservedNames.contains name then
    .error (.ofKind .name s!"Attribute name '{name}' is reserved")
  else .ok ()

namespace Namespace

/-- The path of a single attribute. -/
def attr (ns : Namespace) (name : String) : Except Error Expression := do
  checkAttribute name
  return .path ns ⟨name, none⟩ [] .pending

end Namespace

namespace Expression

/-- A new expression with one attribute more. -/
def attr (e : Expression) (name : String) : Except Error Expression := do
  checkAttribute name
  match e with
  | .path ns root hops _ => return .path ns root (hops ++ [⟨name, none⟩]) .pending
  | .computed operation hops _ => return .computed operation (hops ++ [⟨name, none⟩]) .pending

/-- A new expression with several attributes more; without any, the expression itself. -/
def attrs (e : Expression) (names : List String) : Except Error Expression := names.foldlM attr e

/-- The expression with its last attribute changed. -/
def changeLast (f : Hop → Hop) : Expression → Expression
  | .path ns root [] state => .path ns (f root) [] state
  | .path ns root hops state => .path ns root (hops.modify (hops.length - 1) f) state
  | .computed operation hops state =>
    .computed operation (hops.modify (hops.length - 1) f) state

/-- Records call arguments on the last attribute. -/
def call (e : Expression) (c : CallArgs) : Except Error Expression :=
  match e.parts.getLast? with
  | none => .error (.internal none "Expression with an empty path")
  | some (.inl _) => .error (.ofKind .value "An operation can not be called")
  | some (.inr last) =>
    if last.call.isSome then .error (.ofKind .value s!"Method '{e.text}' already called")
    else .ok (e.changeLast fun hop => { hop with call := some c })

/-- An operation as an expression. -/
def ofOperation (operation : Operation) : Expression := .computed operation [] .pending

/-- The expression combined with another operand. -/
def combine (e : Expression) (op : BinaryOp) (other : Operand) : Expression :=
  ofOperation (.binary op (.expression e) other .pending)

/-- The expression negated. -/
def not (e : Expression) : Expression := ofOperation (.negation (.expression e) .pending)

end Expression

namespace Namespace

/-- The path of several attributes, at least one. -/
def path (ns : Namespace) : List String → Except Error Expression
  | [] => .error (.ofKind .value s!"Empty path for namespace {ns.text}")
  | first :: rest => do (← ns.attr first).attrs rest

end Namespace

/-- The operation with a written operator. The number of operands must be right. -/
def Operation.ofCode (code : String) (first : Operand) (second : Option Operand) :
    Except Error Operation :=
  match Operator.ofCode? code, second with
  | none, _ => .error (.ofKind .value s!"Operator '{code}' is not supported")
  | some .not, none => .ok (.negation first .pending)
  | some .not, some _ => .error (.ofKind .value s!"Operator '{code}' takes a single operand")
  | some (.binary op), some right => .ok (.binary op first right .pending)
  | some (.binary _), none => .error (.ofKind .value s!"Operator '{code}' needs a second operand")

end Formwork
