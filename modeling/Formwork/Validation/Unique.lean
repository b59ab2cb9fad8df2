-- Combinations of fields that no two records share. A record in which one of the fields is missing
-- or null is left out, unless the check is strict.
import Formwork.Heap.Basic
import Formwork.Identifier

namespace Formwork

/-- Among which records a combination must be unique. -/
inductive UniqueScope where
  | global
  | children
deriving DecidableEq, Repr

/-- The written name of a scope. -/
def UniqueScope.text : UniqueScope → String
  | .global => "Global"
  | .children => "Children"

/-- A combination of fields that no two records share. -/
structure UniqueCheck where
  name : Option String
  owner : Option String
  scope : UniqueScope
  fields : List String
  /-- Whether records with a null among the fields are left out. -/
  ignoreNone : Bool
deriving DecidableEq, Repr

namespace UniqueCheck

/-- The first name that stands in the list a second time. -/
def repeated? (before : List String) : List String → Option String
  | [] => none
  | name :: rest => if before.contains name then some name else repeated? (name :: before) rest

/-- A check over at least one field, each listed once. -/
def ofFields (scope : UniqueScope) (fields : List String) : Except Error UniqueCheck :=
  if fields.isEmpty then .error (.ofKind .value "Unique validation needs at least one field")
  else match repeated? [] fields with
    | some name => .error (.ofKind .value s!"Unique validation lists field '{name}' twice")
    | none => .ok ⟨none, none, scope, fields, true⟩

/-- The check under a name. -/
def withName (u : UniqueCheck) (name : String) : Except Error UniqueCheck := do
  checkIdentifier name
  return { u with name := some name }

/-- The check with an owner. -/
def ownedBy (u : UniqueCheck) (owner : String) : UniqueCheck := { u with owner := some owner }

/-- The check that takes records with a null in as well. -/
def strict (u : UniqueCheck) : UniqueCheck := { u with ignoreNone := false }

/-- Who reports a violation. -/
def reporter (u : UniqueCheck) : String := (u.owner.or u.name).getD "unique"

/-- Checks that every field is a component that expressions may use. -/
def checkFields (u : UniqueCheck) (heap : Heap) (maxSuggestions : Nat) : Except Error Unit :=
  let available := (heap.entries .fields).filterMap fun (name, id) =>
    (heap.find? id).bind fun v => if v.denied.isSome then none else some name
  match u.fields.find? fun field => !available.contains field with
  | some field => .error (.unknownName (some u.reporter)
      s!"Unique validation field '{field}' is not a field"
      (Hint.closest field available maxSuggestions))
  | none => .ok ()

/-- The values of the fields of an item. A missing field counts as null. -/
def key (u : UniqueCheck) (index : Nat) (item : Value) : Except Error (List Value) :=
  match item with
  | .record values => .ok (u.fields.map fun field => (Ordered.find? values field).getD .null)
  | other => .error (.evaluation u.reporter
      s!"item {index} is a {other.typeName}, not a record")

/-- The place of the first item whose values were seen before. -/
def firstRepeat (u : UniqueCheck) (index : Nat) (seen : List (List Value)) :
    List Value → Except Error (Option Nat)
  | [] => .ok none
  | item :: rest => do
    let values ← u.key index item
    if u.ignoreNone && values.any Value.isNull then firstRepeat u (index + 1) seen rest
    else if seen.any fun other => Value.equalItems other values then return some index
    else firstRepeat u (index + 1) (values :: seen) rest

/-- Whether no two items share their values. A violation is an error if `raise` is set. -/
def validate (u : UniqueCheck) (items : List Value) (raise : Bool) : Except Error Bool := do
  match ← u.firstRepeat 0 [] items with
  | none => return true
  | some index =>
    if raise then
      throw (.validation u.reporter (s!"Item {index} repeats values of "
        ++ s!"({Text.listed u.fields}) within {u.scope.text} scope"))
    else return false

end UniqueCheck

end Formwork
