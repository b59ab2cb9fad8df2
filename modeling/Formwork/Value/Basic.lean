-- The data that expressions are read from. Whole numbers have 64 bits; a function is known by its
-- number only, and what it does is said where data is read. Equality compares whole numbers with
-- doubles by value and records without regard to the order of their names.
import Formwork.Ordered
import Formwork.Error

namespace Formwork

/-- A piece of data. -/
inductive Value where
  | null
  | boolean (b : Bool)
  | integer (n : Int64)
  | float (x : Float)
  | string (s : String)
  | list (items : List Value)
  | record (fields : List (String × Value))
  | function (id : Nat)
deriving Inhabited

namespace Value

/-- The record that writing the pairs one after the other gives. -/
def ofPairs (pairs : List (String × Value)) : Value := .record (Ordered.ofPairs pairs)

/-- The name of the kind of data. -/
def typeName : Value → String
  | .null => "null"
  | .boolean _ => "bool"
  | .integer _ => "int"
  | .float _ => "float"
  | .string _ => "str"
  | .list _ => "list"
  | .record _ => "record"
  | .function _ => "function"

/-- Whether there is no value. -/
def isNull : Value → Bool
  | .null => true
  | _ => false

/-- What `and`, `or` and `not` take for true. -/
def isTruthy : Value → Bool
  | .null => false
  | .boolean b => b
  | .integer n => n != 0
  | .float x => x != 0.0
  | .string s => !s.isEmpty
  | .list items => !items.isEmpty
  | .record fields => !fields.isEmpty
  | .function _ => true

/-- The value of an attribute of a record. -/
def getAttr (name : String) : Value → Except Error Value
  | .record fields =>
    match Ordered.find? fields name with
    | some value => .ok value
    | none => .error (.evaluation name s!"record has no attribute '{name}'")
  | other =>
    .error (.evaluation name s!"can not read attribute '{name}' of {other.typeName}")

/-! ## Equality -/

/-- The double nearest to a whole number. -/
def nearestDouble (n : Int64) : Float := .ofInt n.toInt

mutual

/-- Whether two values are equal. A double that is no number equals nothing. -/
def equal : Value → Value → Bool
  | .null, .null => true
  | .boolean a, .boolean b => a == b
  | .integer a, .integer b => a == b
  | .float a, .float b => a == b
  | .integer a, .float b => nearestDouble a == b
  | .float a, .integer b => nearestDouble b == a
  | .string a, .string b => a == b
  | .list a, .list b => equalItems a b
  | .record a, .record b => a.length == b.length && foundIn b a
  | .function a, .function b => a == b
  | _, _ => false

/-- Whether two lists have equal values at every place. -/
def equalItems : List Value → List Value → Bool
  | [], [] => true
  | a :: as, b :: bs => equal a b && equalItems as bs
  | _, _ => false

/-- Whether every field is in `other` with an equal value. -/
def foundIn (other : Ordered Value) : List (String × Value) → Bool
  | [] => true
  | (key, value) :: rest =>
    (match Ordered.find? other key with
      | some there => equal value there
      | none => false) && foundIn other rest

end

instance : BEq Value := ⟨equal⟩

end Value

end Formwork
