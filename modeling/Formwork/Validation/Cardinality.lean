-- How many items a repeating record may hold. The rule must suit the type of the model: a rule that
-- allows no item at all needs an optional type and the other way around, and a rule for several
-- items needs a list.
import Formwork.Identifier
import Formwork.Types.Descriptor

namespace Formwork

/-- A rule for the number of items. -/
inductive Cardinality where
  /-- One item. -/
  | single (allowNone : Bool)
  /-- A number of items within bounds. -/
  | range (min max : Option UInt32)
  /-- Any number of items. -/
  | multi (allowNone : Bool)
deriving DecidableEq, Repr

namespace Cardinality

/-- A range with at least one bound, which are in order and do not name a single item. -/
def between (min max : Option UInt32) : Except Error Cardinality :=
  match min, max with
  | none, none => .error (.ofKind .value "Range cardinality needs min or max")
  | some lo, some hi =>
    if hi < lo then
      .error (.ofKind .value s!"Range cardinality min {lo} is greater than max {hi}")
    else if hi = 1 then
      .error (.ofKind .value "Range cardinality with max 1 is a Single cardinality")
    else .ok (.range min max)
  | none, some hi =>
    if hi = 1 then .error (.ofKind .value "Range cardinality with max 1 is a Single cardinality")
    else .ok (.range min max)
  | some _, none => .ok (.range min max)

/-- Whether the rule calls for an optional type. -/
def allowsNone : Cardinality → Bool
  | .single allowNone => allowNone
  | .multi allowNone => allowNone
  | .range min _ => min == some 0

/-- Whether the rule calls for a list. -/
def expectsList : Cardinality → Bool
  | .single _ => false
  | _ => true

/-- The written form of a bound. -/
def boundText : Option UInt32 → String
  | some n => toString n
  | none => "-"

/-- The written form. -/
def text : Cardinality → String
  | .single allowNone => s!"Single(allow_none={allowNone})"
  | .multi allowNone => s!"Multi(allow_none={allowNone})"
  | .range min max => s!"Range(min={boundText min}, max={boundText max})"

/-- What is wrong with a number of items, if anything is. -/
def violation? (rule : Cardinality) (count : Nat) : Option String :=
  match rule with
  | .single allowNone =>
    if count = 0 then if allowNone then none else some "Expected exactly one item, got none."
    else if count = 1 then none
    else some s!"Expected exactly one item, got {count}."
  | .range min max =>
    match min.filter (count < ·.toNat), max.filter (·.toNat < count) with
    | some lo, _ => some s!"Expected at least {lo} items, got {count}."
    | none, some hi => some s!"Expected at most {hi} items, got {count}."
    | none, none => none
  | .multi allowNone =>
    if count = 0 && !allowNone then some "Expected at least one item, got none." else none

/-- What is wrong with the rule for a type, if anything is. -/
def mismatch? (rule : Cardinality) (bound : Descriptor) : Option String :=
  match rule.allowsNone, bound.isOptional with
  | false, true => some (s!"Model type is optional but {rule.text} does not allow none, "
      ++ "remove Optional or allow none")
  | true, false => some (s!"Model type {bound.declared.text} is not optional but {rule.text} "
      ++ "allows none, add Optional or require at least one item")
  | _, _ =>
    match rule.expectsList, bound.isList with
    | true, false => some s!"{rule.text} needs a list model, got {bound.underlying.text}"
    | false, true => some (s!"{rule.text} needs a single model, got List[{bound.underlying.text}], "
        ++ "use Range or Multi")
    | _, _ => none

end Cardinality

/-- A rule for the number of items, as a component. -/
structure CardinalityCheck where
  name : Option String
  owner : Option String
  rule : Cardinality
deriving DecidableEq, Repr

namespace CardinalityCheck

/-- The rule without a name and without an owner. -/
def ofRule (rule : Cardinality) : CardinalityCheck := ⟨none, none, rule⟩

/-- The rule under a name. -/
def withName (c : CardinalityCheck) (name : String) : Except Error CardinalityCheck := do
  checkIdentifier name
  return { c with name := some name }

/-- The rule with an owner. -/
def ownedBy (c : CardinalityCheck) (owner : String) : CardinalityCheck :=
  { c with owner := some owner }

/-- Who reports a violation. -/
def reporter (c : CardinalityCheck) : String := (c.owner.or c.name).getD "cardinality"

/-- Checks the rule against the shape of a model. -/
def checkShape (c : CardinalityCheck) (bound : Descriptor) : Except Error Unit :=
  match c.rule.mismatch? bound with
  | some message => .error (.setup .type (some c.reporter) message)
  | none => .ok ()

/-- Whether a number of items is allowed. A violation is an error if `raise` is set. -/
def validate (c : CardinalityCheck) (count : Nat) (raise : Bool) : Except Error Bool :=
  match c.rule.violation? count with
  | none => .ok true
  | some message => if raise then .error (.validation c.reporter message) else .ok false

end CardinalityCheck

end Formwork
