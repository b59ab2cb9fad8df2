-- Scalar types and enums. A scalar type says which values fit it; an enum is a closed set of named
-- values that all fit one scalar type.
import Formwork.Value.Text

namespace Formwork

/-- A type without parts. -/
inductive ScalarType where
  | str
  | int
  | float
  | bool
  | decimal
  | date
  | datetime
deriving DecidableEq, Repr

namespace ScalarType

/-- All scalar types. -/
def all : List ScalarType := [str, int, float, bool, decimal, date, datetime]

/-- The written name. -/
def text : ScalarType → String
  | str => "str"
  | int => "int"
  | float => "float"
  | bool => "bool"
  | decimal => "decimal"
  | date => "date"
  | datetime => "datetime"

/-- The scalar type with a written name. -/
def ofText? (s : String) : Option ScalarType := all.find? fun t => t.text == s

/-- The name in the tagged form of a type. -/
def tagged : ScalarType → String
  | str => "Str"
  | int => "Int"
  | float => "Float"
  | bool => "Bool"
  | decimal => "Decimal"
  | date => "Date"
  | datetime => "DateTime"

/-- Whether a value fits the type. Dates are texts, and whole numbers pass for doubles and
decimals. -/
def accepts : ScalarType → Value → Bool
  | str, .string _ => true
  | int, .integer _ => true
  | float, .float _ => true
  | float, .integer _ => true
  | decimal, .float _ => true
  | decimal, .integer _ => true
  | bool, .boolean _ => true
  | date, .string _ => true
  | datetime, .string _ => true
  | _, _ => false

end ScalarType

/-- A closed set of named values of one scalar type. -/
structure EnumType where
  name : String
  valueType : ScalarType
  members : Ordered Value

namespace EnumType

/-- Takes the members in one after the other; each value must fit and each name must be new. -/
def collect (name : String) (valueType : ScalarType) (members : Ordered Value) :
    List (String × Value) → Except Error (Ordered Value)
  | [] => .ok members
  | (key, value) :: rest =>
    if !valueType.accepts value then
      .error (.ofKind .type
        s!"Enum {name} member {key} has value {value.text} which is not {valueType.text}")
    else if members.has key then
      .error (.ofKind .name s!"Enum {name} has duplicate member {key}")
    else collect name valueType (members.put key value) rest

/-- An enum with at least one member. -/
def declare (name : String) (valueType : ScalarType) (members : List (String × Value)) :
    Except Error EnumType := do
  let collected ← collect name valueType [] members
  if collected.isEmpty then throw (.ofKind .value s!"Enum {name} has no members")
  return ⟨name, valueType, collected⟩

theorem declare_eq (name : String) (valueType : ScalarType) (members : List (String × Value)) :
    declare name valueType members = (collect name valueType [] members).bind fun collected =>
      if collected.isEmpty then .error (.ofKind .value s!"Enum {name} has no members")
      else .ok ⟨name, valueType, collected⟩ := by
  unfold declare
  rcases collect name valueType [] members with _ | collected
  · rfl
  · show (if _ then _ else _) = if _ then _ else _
    split <;> rfl

/-- Whether a value equals one of the members. -/
def containsValue (e : EnumType) (value : Value) : Bool :=
  e.members.values.any fun member => member.equal value

/-- Enums are equal when their names and types are and they have equal members in any order. -/
def equal (a b : EnumType) : Bool :=
  a.name == b.name && a.valueType == b.valueType
    && (Value.record a.members).equal (.record b.members)

end EnumType

end Formwork
