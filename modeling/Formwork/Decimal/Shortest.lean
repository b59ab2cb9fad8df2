-- The shortest decimal that reads back as a given double. Of the decimals that round to the double,
-- the coarsest grid of powers of ten that holds one is taken, and on it the point nearest to the
-- double. Of two points equally near, a rule for ties takes one.
import Formwork.Decimal.Fraction

namespace Formwork.Decimal

/-! ## Doubles as exact fractions -/

/-- The reals that round to a positive double: the double itself and both ends of the interval,
which belong to it when `closed` holds. -/
structure Rounding where
  low : Fraction
  value : Fraction
  high : Fraction
  closed : Bool

/-- The rounding interval of the positive finite double with the given bits. An even significand
takes its ends in, and below a power of two the gap is half as wide. -/
def Rounding.ofBits (bits : Nat) : Rounding :=
  let field := bits / Nat.pow 2 52 % Nat.pow 2 11
  let low := bits % Nat.pow 2 52
  let significand := if field = 0 then low else Nat.pow 2 52 + low
  let exponent : Int := ((if field = 0 then 1 else field : Nat) : Int) - 1077
  let below := if low = 0 && 1 < field then 1 else 2
  { low := (Fraction.ofNat (4 * significand - below)).scale 2 exponent
    value := (Fraction.ofNat (4 * significand)).scale 2 exponent
    high := (Fraction.ofNat (4 * significand + 2)).scale 2 exponent
    closed := significand % 2 = 0 }

/-! ## The coarsest grid -/

/-- Which of two decimals that are equally near to a double is taken. -/
inductive Tie where
  | toLarger
  | toEven
deriving Repr, DecidableEq

/-- Whether the smaller of two equally near decimals is taken, given its digits. -/
def Tie.takesLower (tie : Tie) (lower : Nat) : Bool :=
  match tie with
  | toLarger => false
  | toEven => lower % 2 == 0

/-- The decimal `digits · 10 ^ exponent`. -/
structure Digits where
  digits : Nat
  exponent : Int
deriving Repr, DecidableEq

/-- The decimal as a fraction. -/
def Digits.toFraction (d : Digits) : Fraction := (Fraction.ofNat d.digits).scale 10 d.exponent

/-- Whether a decimal rounds to the double. -/
def Rounding.holds (r : Rounding) (d : Digits) : Bool :=
  let x := d.toFraction
  let left := r.low.num * x.den
  let right := x.num * r.low.den
  let left' := x.num * r.high.den
  let right' := r.high.num * x.den
  if r.closed then left ≤ right && left' ≤ right' else left < right && left' < right'

/-- The point of the grid `10 ^ exponent` that rounds to the double, if one does: of the two
neighbours of the double the nearer one. -/
def Rounding.onGrid? (r : Rounding) (tie : Tie) (exponent : Int) : Option Digits :=
  let step := (Digits.mk 1 exponent).toFraction
  let below := r.value.num * step.den / (r.value.den * step.num)
  let lower : Digits := ⟨below, exponent⟩
  let upper : Digits := ⟨below + 1, exponent⟩
  let twice := 2 * r.value.num * step.den
  let middle := (2 * below + 1) * step.num * r.value.den
  match r.holds lower, r.holds upper with
  | true, true =>
    some (if twice < middle || twice == middle && tie.takesLower below then lower else upper)
  | true, false => some lower
  | false, true => some upper
  | false, false => none

/-- The first hit on the grids `10 ^ (n - 330)` and finer ones. Every double has a hit, since no two
doubles are closer to each other than `10 ^ -324`. -/
def Rounding.search (r : Rounding) (tie : Tie) : Nat → Digits
  | 0 => (r.onGrid? tie (-330)).getD ⟨0, 0⟩
  | n + 1 => (r.onGrid? tie ((n : Int) - 329)).getD (r.search tie n)

/-- The shortest decimal that reads back as the positive finite double with the given bits. -/
def shortest (tie : Tie) (bits : Nat) : Digits := (Rounding.ofBits bits).search tie 640

end Formwork.Decimal
