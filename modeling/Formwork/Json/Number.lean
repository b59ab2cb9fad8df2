-- Numbers in documents. A number without a point and without an exponent is whole if 64 bits hold
-- it; every other one is a double, read with a 64-bit significand and one scaling by a power of
-- ten.
import Formwork.Decimal.Nearest
import Formwork.Json.Basic

namespace Formwork.Json

/-- The parts of a written number. -/
structure Numeral where
  negative : Bool
  whole : List Nat
  fraction : List Nat
  /-- The power of ten after the mark, with the sign of the mark. -/
  power : Option (Bool × Nat)

namespace Numeral

/-- Digits are taken in while 64 bits hold the significand; the first one that does not fit ends
this, and the result tells how many were taken. -/
def takeIn (significand taken : Nat) : List Nat → Nat × Nat
  | [] => (significand, taken)
  | d :: rest =>
    if 10 * significand + d < Nat.pow 2 64 then takeIn (10 * significand + d) (taken + 1) rest
    else (significand, taken)

/-- `x · 10 ^ e` by one multiplication or division when a double holds the power, and by divisions
by `10 ^ 308` before when it does not. Nothing if the result is out of range. -/
def scale (x : Float) (e : Int) : Nat → Option Float
  | 0 => some x
  | steps + 1 =>
    if e.natAbs ≤ 308 then
      let power := Decimal.nearest 1 e.natAbs
      if 0 ≤ e then
        let y := x * power
        if y.isInf then none else some y
      else some (x / power)
    else if x == 0.0 then some x
    else if 0 ≤ e then none
    else scale (x / Decimal.nearest 1 308) (e + 308) steps

/-- The double that a number writes, or nothing if it is out of range. -/
def double? (n : Numeral) : Option Float :=
  let (whole, taken) := takeIn 0 0 n.whole
  let dropped := n.whole.length - taken
  let (significand, places) := takeIn whole 0 n.fraction
  let start : Int := (dropped : Int) - places
  let signed := fun x : Float => if n.negative then -x else x
  match n.power with
  | none => (scale (Decimal.nearest significand 0) start 4).map signed
  | some (down, power) =>
    if Nat.pow 2 31 ≤ power then
      if significand != 0 && !down then none else some (signed 0.0)
    else
      let shift : Int := if down then -(power : Int) else (power : Int)
      (scale (Decimal.nearest significand 0) (start + shift) 4).map signed

/-- The number that the parts write. -/
def toJson? (n : Numeral) : Option Json :=
  let whole := n.whole.foldl (fun (acc : Nat) d => 10 * acc + d) 0
  if n.fraction.isEmpty && n.power.isNone && !(n.negative && whole == 0)
      && whole < (if n.negative then Nat.pow 2 63 + 1 else Nat.pow 2 64) then
    some (.integer (if n.negative then -(whole : Int) else whole))
  else n.double?.map .number

end Numeral

end Formwork.Json
