-- The shape of a declared type. At most one optional layer and then at most one list layer are
-- taken off; what is left must be a plain type.
import Formwork.Types.Declared
import Formwork.Hint

namespace Formwork

/-- Where a type was declared. -/
inductive Origin where
  | structField
  | schemaField
  | function
  | direct
deriving DecidableEq, Repr

/-- The written name of an origin. -/
def Origin.text : Origin → String
  | .structField => "StructField"
  | .schemaField => "SchemaField"
  | .function => "Function"
  | .direct => "DirectArg"

/-- The origin of the fields of a model. -/
def ModelForm.origin : ModelForm → Origin
  | .struct => .structField
  | .schema => .schemaField

/-- The shape of a declared type. -/
structure Descriptor where
  declared : DeclaredType
  underlying : PlainType
  isList : Bool
  isOptional : Bool
  origin : Origin

namespace DeclaredType

/-- Takes one optional layer off: the type without its absent markers, and whether it had any. -/
def withoutAbsent : DeclaredType → DeclaredType × Bool
  | .union members =>
    if members.any isAbsent then
      match members.filter fun member => !member.isAbsent with
      | [only] => (only, true)
      | rest => (.union rest, true)
    else (.union members, false)
  | other => (other, false)

/-- Takes one list layer off: the type of the items, and whether the type was a list. -/
def withoutList : DeclaredType → DeclaredType × Bool
  | .list item => (item, true)
  | other => (other, false)

/-- The shape of a type, or an error if more than one layer of a kind has to come off. -/
def describe (a : DeclaredType) (origin : Origin) : Except Error Descriptor :=
  let (present, isOptional) := a.withoutAbsent
  let (item, isList) := present.withoutList
  match item with
  | .plain p => .ok ⟨a, p, isList, isOptional, origin⟩
  | _ => .error (.ofKind .name
      s!"annotation must have a single parametrized argument, got {a.text}")

end DeclaredType

namespace Descriptor

/-- The record model, if the underlying type is one. -/
def model? (d : Descriptor) : Option RecordModel := d.underlying.model?

/-- The written form. -/
def text (d : Descriptor) : String :=
  s!"{d.underlying.text} (list={d.isList}, optional={d.isOptional}, from {d.origin.text})"

/-- The shape of an attribute of the record type with this shape. Whether the record is optional or
in a list makes no difference. -/
def attr (parent : Descriptor) (name : String) (maxSuggestions : Nat) :
    Except Error Descriptor :=
  match parent.model? with
  | none => .error (.ofKind .value
      s!"Type {parent.underlying.text} is not a record type, can not read attribute '{name}'")
  | some model =>
    match RecordModel.field? model name with
    | some field => field.declared.describe model.form.origin
    | none => .error (.unknownName none s!"Model {model.name} has no field '{name}'"
        (Hint.closest name (RecordModel.fieldNames model) maxSuggestions))

end Descriptor

end Formwork
