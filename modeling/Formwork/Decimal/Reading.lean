-- Reading decimals. A decimal is a sign, digits with at most one point, and an exponent; `inf`,
-- `infinity` and `nan` stand for the special doubles in any case. The result is the nearest double.
import Formwork.Decimal.Nearest

namespace Formwork.Decimal

/-- The value of a run of digits, or nothing if another character is among them. -/
def natOfDigits? (cs : List Char) : Option Nat :=
  cs.foldl (fun acc c => acc.bind fun n =>
    if c.isDigit then some (10 * n + (c.toNat - '0'.toNat)) else none) (some 0)

/-- An exponent: a sign and at least one digit. -/
def exponent? (cs : List Char) : Option Int :=
  let (negative, digits) := match cs with
    | '-' :: rest => (true, rest)
    | '+' :: rest => (false, rest)
    | rest => (false, rest)
  if digits.isEmpty then none
  else (natOfDigits? digits).map fun n => if negative then -(n : Int) else n

/-- A decimal without a sign. -/
def unsigned? (cs : List Char) : Option Float :=
  let isMark := fun c => c == 'e' || c == 'E'
  let mantissa := cs.takeWhile (!isMark ·)
  let mark := cs.dropWhile (!isMark ·)
  let whole := mantissa.takeWhile (· != '.')
  let fraction := (mantissa.dropWhile (· != '.')).drop 1
  if whole.isEmpty && fraction.isEmpty then none
  else do
    let digits ← natOfDigits? (whole ++ fraction)
    let power ← if mark.isEmpty then some 0 else exponent? (mark.drop 1)
    return nearest digits (power - fraction.length)

/-- The double that a text writes. -/
def read? (text : String) : Option Float :=
  let (negative, cs) := match text.toList with
    | '-' :: rest => (true, rest)
    | '+' :: rest => (false, rest)
    | rest => (false, rest)
  let magnitude := match String.ofList (cs.map Char.toLower) with
    | "inf" => some (1.0 / 0.0)
    | "infinity" => some (1.0 / 0.0)
    | "nan" => some (0.0 / 0.0)
    | _ => unsigned? cs
  magnitude.map fun x => if negative then -x else x

end Formwork.Decimal
