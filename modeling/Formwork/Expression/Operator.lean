-- Operators on values. Whole numbers stay exact: a result that 64 bits do not hold is an error.
-- Next to a double a whole number counts as a double. Every operator reads both of its operands.
import Formwork.Value.Text
import Formwork.Hint

namespace Formwork

/-- An operator with two operands. -/
inductive BinaryOp where
  | eq
  | ne
  | gt
  | ge
  | lt
  | le
  | add
  | sub
  | mul
  | div
  | floorDiv
  | contains
  | and
  | or
deriving DecidableEq, Repr

/-- An operator. -/
inductive Operator where
  | not
  | binary (op : BinaryOp)
deriving DecidableEq, Repr

namespace BinaryOp

/-- All operators with two operands. -/
def all : List BinaryOp :=
  [eq, ne, gt, ge, lt, le, add, sub, mul, div, floorDiv, contains, and, or]

/-- The written form. -/
def code : BinaryOp → String
  | eq => "=="
  | ne => "!="
  | gt => ">"
  | ge => ">="
  | lt => "<"
  | le => "<="
  | add => "+"
  | sub => "-"
  | mul => "*"
  | div => "/"
  | floorDiv => "//"
  | contains => "in"
  | and => "and"
  | or => "or"

end BinaryOp

namespace Operator

/-- All operators. -/
def all : List Operator := .not :: BinaryOp.all.map .binary

/-- The written form. -/
def code : Operator → String
  | .not => "not"
  | .binary op => op.code

/-- Whether the operator takes a single operand. -/
def isUnary : Operator → Bool
  | .not => true
  | .binary _ => false

/-- The operator with a written form. -/
def ofCode? (code : String) : Option Operator := all.find? fun op => op.code == code

end Operator

/-- Why an operator has no result. -/
inductive OperatorFault where
  /-- The operands are of the wrong kinds. -/
  | mismatch
  /-- The exact result does not fit 64 bits. -/
  | overflow
  | divisionByZero
  /-- One operand is no number. -/
  | incomparable
  /-- The quotient, rounded toward zero, does not fit 64 bits. -/
  | abort
deriving DecidableEq, Repr

namespace OperatorFault

/-- The message for the operands at hand. -/
def message (op : BinaryOp) (left right : Value) : OperatorFault → String
  | mismatch =>
    s!"operator '{op.code}' can not be applied to {left.typeName} and {right.typeName}"
  | overflow => "integer overflow"
  | divisionByZero => "division by zero"
  | incomparable => "values are not comparable"
  | abort => "quotient out of range"

end OperatorFault

namespace BinaryOp

/-! ## Arithmetic -/

/-- A whole number, if 64 bits with a sign hold it. -/
def fit? (n : Int) : Option Int64 :=
  if -(Nat.pow 2 63 : Nat) ≤ n ∧ n < (Nat.pow 2 63 : Nat) then some (Int64.ofInt n) else none

/-- The exact whole number, or an overflow. -/
def exact (n : Int) : Except OperatorFault Value :=
  match fit? n with
  | some m => .ok (.integer m)
  | none => .error .overflow

/-- Two numbers, of which at least one is a double, as doubles. -/
def doubles? : Value → Value → Option (Float × Float)
  | .float l, .float r => some (l, r)
  | .integer l, .float r => some (Value.nearestDouble l, r)
  | .float l, .integer r => some (l, Value.nearestDouble r)
  | _, _ => none

/-- Exact on two whole numbers, rounded when a double takes part. -/
def arithmetic (whole : Int → Int → Int) (rounded : Float → Float → Float) (left right : Value) :
    Except OperatorFault Value :=
  match left, right with
  | .integer l, .integer r => exact (whole l.toInt r.toInt)
  | _, _ =>
    match doubles? left right with
    | some (l, r) => .ok (.float (rounded l r))
    | none => .error .mismatch

/-- Two numbers as doubles, the second one not zero. -/
def divisible (left right : Value) : Except OperatorFault (Float × Float) :=
  let pair := match left, right with
    | .integer l, .integer r => some (Value.nearestDouble l, Value.nearestDouble r)
    | _, _ => doubles? left right
  match pair with
  | none => .error .mismatch
  | some (l, r) => if r == 0.0 then .error .divisionByZero else .ok (l, r)

/-- Sums of numbers; texts and lists are joined. -/
def sum (left right : Value) : Except OperatorFault Value :=
  match left, right with
  | .string l, .string r => .ok (.string (l ++ r))
  | .list l, .list r => .ok (.list (l ++ r))
  | _, _ => arithmetic (· + ·) (· + ·) left right

/-- The quotient as a double. -/
def quotient (left right : Value) : Except OperatorFault Value :=
  (divisible left right).map fun (l, r) => .float (l / r)

/-- The quotient of two whole numbers, which is rounded toward zero; where that rounds up, one less
is the quotient rounded down. -/
def roundedDown (l r : Int64) : Int64 :=
  let quotient := l / r
  if l % r ≠ 0 ∧ decide (l < 0) ≠ decide (r < 0) then quotient - 1 else quotient

/-- The quotient rounded down; whole numbers stay whole. -/
def floorQuotient (left right : Value) : Except OperatorFault Value :=
  match left, right with
  | .integer l, .integer r =>
    if r = 0 then .error .divisionByZero
    else if l = Int64.minValue ∧ r = -1 then .error .abort
    else .ok (.integer (roundedDown l r))
  | _, _ => (divisible left right).map fun (l, r) => .float (l / r).floor

/-! ## Order and membership -/

/-- The order of two doubles, unless one of them is no number. -/
def orderFloats (l r : Float) : Option Ordering :=
  if l < r then some .lt else if r < l then some .gt else if l == r then some .eq else none

/-- The order of two values of one kind. Texts are ordered by code points. -/
def order (left right : Value) : Except OperatorFault (Option Ordering) :=
  match left, right with
  | .integer l, .integer r => .ok (some (compare l.toInt r.toInt))
  | .string l, .string r => .ok (some (compare l r))
  | .boolean l, .boolean r => .ok (some (compare l.toNat r.toNat))
  | _, _ =>
    match doubles? left right with
    | some (l, r) => .ok (orderFloats l r)
    | none => .error .mismatch

/-- Whether the order of two values passes a test. -/
def comparison (passes : Ordering → Bool) (left right : Value) : Except OperatorFault Value := do
  match ← order left right with
  | some found => return .boolean (passes found)
  | none => throw .incomparable

/-- Whether the first value contains the second: a list an item, a text a part, a record a name. -/
def membership (left right : Value) : Except OperatorFault Value :=
  match left, right with
  | .list items, item => .ok (.boolean (items.any fun other => other.equal item))
  | .string whole, .string part => .ok (.boolean (Hint.contains part.toList whole.toList))
  | .record fields, .string key => .ok (.boolean (Ordered.has fields key))
  | _, _ => .error .mismatch

/-- Applies the operator to two values. -/
def apply (op : BinaryOp) (left right : Value) : Except OperatorFault Value :=
  match op with
  | eq => .ok (.boolean (left.equal right))
  | ne => .ok (.boolean (!left.equal right))
  | gt => comparison Ordering.isGT left right
  | ge => comparison Ordering.isGE left right
  | lt => comparison Ordering.isLT left right
  | le => comparison Ordering.isLE left right
  | add => sum left right
  | sub => arithmetic (· - ·) (· - ·) left right
  | mul => arithmetic (· * ·) (· * ·) left right
  | div => quotient left right
  | floorDiv => floorQuotient left right
  | contains => membership left right
  | and => .ok (.boolean (left.isTruthy && right.isTruthy))
  | or => .ok (.boolean (left.isTruthy || right.isTruthy))

end BinaryOp

end Formwork
