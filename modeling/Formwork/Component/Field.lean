-- Fields. A field shows one attribute of a model, to which an expression binds it. Its kind says
-- how the value is entered: freely, as a truth value, as a member of an enum, or as one of a number
-- of choices.
import Formwork.Expression.Builder
import Formwork.Expression.Read
import Formwork.Heap.Variable
import Formwork.Identifier

namespace Formwork

/-! ## Parts -/

/-- How a field is shown. -/
inductive FieldType where
  | input
  | text
  | number
  | email
  | password
  | date
  | boolean
  | choice
  | enum
deriving DecidableEq, Repr

namespace FieldType

/-- All types of fields. -/
def all : List FieldType :=
  [input, text, number, email, password, date, boolean, choice, enum]

/-- The written name. -/
def label : FieldType → String
  | input => "input"
  | text => "text"
  | number => "number"
  | email => "email"
  | password => "password"
  | date => "date"
  | boolean => "boolean"
  | choice => "choice"
  | enum => "enum"

/-- The type with a written name. -/
def ofLabel? (s : String) : Option FieldType := all.find? fun t => t.label == s

end FieldType

/-- Where choices come from. -/
inductive Choices where
  /-- A list that is found in the heap. -/
  | expression (e : Expression)
  /-- A function that gives a list of records. -/
  | function (signature : Signature)
  /-- Fixed values with their labels. -/
  | options (options : List (Value × String))

/-- The choices of a field, and the attributes of a choice that are stored and shown. -/
structure ChoiceSpec where
  choices : Choices
  value : Option Expression
  label : Option Expression

/-- How the value of a field is entered. -/
inductive FieldKind where
  | input
  | boolean
  | choice (spec : ChoiceSpec)
  /-- A member of an enum, of the attribute's own one if none is given. -/
  | enum (explicit : Option EnumType)

namespace FieldKind

/-- The type of a field of this kind when no other is asked for. -/
def defaultType : FieldKind → FieldType
  | .input => .input
  | .boolean => .boolean
  | .choice _ => .choice
  | .enum _ => .enum

/-- Whether a field of this kind can be shown in a way. -/
def accepts (kind : FieldKind) (type : FieldType) : Bool :=
  match kind with
  | .input => type != .boolean && type != .choice && type != .enum
  | other => type == other.defaultType

end FieldKind

/-- What setup finds out about a field. -/
structure FieldBinding where
  /-- The variable of the bound attribute. -/
  target : BoundVar
  descriptor : Descriptor
  /-- The variable of the field itself. -/
  ownVariable : Option VarId

/-- A field that shows one attribute of a model. -/
structure Field where
  name : String
  bind : Expression
  type : FieldType
  kind : FieldKind
  required : Option Operand
  editable : Option Operand
  available : Option Operand
  default : Option Operand
  binding : Option FieldBinding

namespace Field

/-! ## Building -/

/-- The name of a field when no other is given: its attributes without the model, joined. -/
def nameOfBind (bind : Expression) : Except Error String :=
  match bind with
  | .computed .. => .error (.ofKind .value s!"Field bind {bind.text} can not contain operations")
  | .path _ root [] _ => .ok root.name
  | .path _ _ hops _ => .ok ("__".intercalate (hops.map Hop.name))

/-- A field of a kind, named after its attribute. -/
def ofKind (bind : Expression) (kind : FieldKind) : Except Error Field := do
  let name ← nameOfBind bind
  return ⟨name, bind, kind.defaultType, kind, none, none, none, none, none⟩

/-- The field under another name. -/
def withName (f : Field) (name : String) : Except Error Field := do
  checkIdentifier name
  return { f with name }

/-- The field shown in another way, if its kind allows it. -/
def withType (f : Field) (type : FieldType) : Except Error Field :=
  if f.kind.accepts type then .ok { f with type }
  else .error (.ofKind .value (s!"Field {f.name} of kind {f.kind.defaultType.label} "
    ++ s!"can not have type {type.label}"))

/-- The enum field with an enum of its own. -/
def withEnum (f : Field) (e : EnumType) : Except Error Field :=
  match f.kind with
  | .enum _ => .ok { f with kind := .enum (some e) }
  | _ => .error (.ofKind .value s!"Field {f.name} is not an enum field")

/-- The choice field with its choices changed. -/
def withChoice (f : Field) (update : ChoiceSpec → ChoiceSpec) : Except Error Field :=
  match f.kind with
  | .choice spec => .ok { f with kind := .choice (update spec) }
  | _ => .error (.ofKind .value s!"Field {f.name} is not a choice field")

/-- The choice field that stores an attribute of the choice. -/
def withChoiceValue (f : Field) (value : Expression) : Except Error Field :=
  f.withChoice fun spec => { spec with value := some value }

/-- The choice field that shows an attribute of the choice. -/
def withChoiceLabel (f : Field) (label : Expression) : Except Error Field :=
  f.withChoice fun spec => { spec with label := some label }

/-- The field with a default. A fixed default of a boolean field is a truth value. -/
def withDefault (f : Field) (default : Operand) : Except Error Field :=
  match f.kind, default with
  | .boolean, .literal (.boolean _) => .ok { f with default := some default }
  | .boolean, .literal value => .error (.ofKind .value
      s!"Boolean field {f.name} needs a boolean default, got {value.typeName}")
  | _, _ => .ok { f with default := some default }

end Field

end Formwork
