-- Declared types. A plain type is a scalar, an enum or a record model; lists and unions are built
-- on top, and a union with the absent marker is an optional type. A record model is known by its
-- name: two models of one name are the same type, whatever their fields.
import Formwork.Types.Scalar

namespace Formwork

/-- A field of a record model. -/
structure FieldOf (α : Type) where
  name : String
  declared : α
  required : Bool
  description : Option String

/-- How a record model was declared. -/
inductive ModelForm where
  | struct
  | schema
deriving DecidableEq, Repr

/-- A record model: named fields in the order of their declaration. -/
structure ModelOf (α : Type) where
  name : String
  form : ModelForm
  fields : List (FieldOf α)

/-- A type that is neither list nor union nor absent. -/
inductive PlainOf (α : Type) where
  | scalar (s : ScalarType)
  | enum (e : EnumType)
  | model (m : ModelOf α)

/-- A declared type. -/
inductive DeclaredType where
  | plain (p : PlainOf DeclaredType)
  | list (item : DeclaredType)
  | union (members : List DeclaredType)
  | absent

/-- A plain type. -/
abbrev PlainType := PlainOf DeclaredType

/-- A record model. -/
abbrev RecordModel := ModelOf DeclaredType

/-- A field of a record model. -/
abbrev ModelField := FieldOf DeclaredType

namespace RecordModel

/-- The field with a name. -/
def field? (m : RecordModel) (name : String) : Option ModelField :=
  m.fields.find? fun field => field.name == name

/-- The names of the fields, in order. -/
def fieldNames (m : RecordModel) : List String := m.fields.map FieldOf.name

end RecordModel

namespace PlainOf

/-- The record model, if the type is one. -/
def model? {α : Type} : PlainOf α → Option (ModelOf α)
  | .model m => some m
  | _ => none

/-- The enum, if the type is one. -/
def enum? {α : Type} : PlainOf α → Option EnumType
  | .enum e => some e
  | _ => none

/-- The scalar type, if the type is one. -/
def scalar? {α : Type} : PlainOf α → Option ScalarType
  | .scalar s => some s
  | _ => none

/-- The written name. -/
def text {α : Type} : PlainOf α → String
  | .scalar s => s.text
  | .enum e => e.name
  | .model m => m.name

/-- Whether two plain types are the same. Models are compared by name. -/
def equal {α : Type} : PlainOf α → PlainOf α → Bool
  | .scalar a, .scalar b => a == b
  | .enum a, .enum b => a.equal b
  | .model a, .model b => a.name == b.name
  | _, _ => false

end PlainOf

namespace DeclaredType

/-- The type of a scalar. -/
def scalar (s : ScalarType) : DeclaredType := .plain (.scalar s)

/-- The type of a record model. -/
def model (m : RecordModel) : DeclaredType := .plain (.model m)

/-- A union of a type and the absent marker. -/
def optional (inner : DeclaredType) : DeclaredType := .union [inner, .absent]

/-- Whether the type is the absent marker. -/
def isAbsent : DeclaredType → Bool
  | .absent => true
  | _ => false

/-- Whether the type is a union with an absent marker among its members. -/
def isOptional : DeclaredType → Bool
  | .union members => members.any isAbsent
  | _ => false

/-- The plain type, if the type is one. -/
def plain? : DeclaredType → Option PlainType
  | .plain p => some p
  | _ => none

mutual

/-- Whether two types are the same: member by member, and models by name. -/
def equal : DeclaredType → DeclaredType → Bool
  | .plain a, .plain b => a.equal b
  | .list a, .list b => equal a b
  | .union a, .union b => equalMembers a b
  | .absent, .absent => true
  | _, _ => false

/-- Whether two unions have the same members at every place. -/
def equalMembers : List DeclaredType → List DeclaredType → Bool
  | [], [] => true
  | a :: as, b :: bs => equal a b && equalMembers as bs
  | _, _ => false

end

mutual

/-- The written form. A union of one type and the absent marker, in this order, is optional. -/
def text : DeclaredType → String
  | .plain p => p.text
  | .list item => "List[" ++ item.text ++ "]"
  | .union [inner, .absent] => "Optional[" ++ inner.text ++ "]"
  | .union members => "Union[" ++ Text.listed (texts members) ++ "]"
  | .absent => "None"

/-- The written forms of the members of a union. -/
def texts : List DeclaredType → List String
  | [] => []
  | member :: rest => member.text :: texts rest

end

end DeclaredType

end Formwork
