-- Exact fractions, by numerator and denominator. Scaling by powers of two and of ten stays exact,
-- so that doubles and decimals can be held against each other.

namespace Formwork.Decimal

/-- A fraction that is not negative; its denominator is not zero. -/
structure Fraction where
  num : Nat
  den : Nat
deriving Repr, DecidableEq

namespace Fraction

/-- The fraction times a power of the base. -/
def scale (x : Fraction) (base : Nat) (e : Int) : Fraction :=
  if 0 ≤ e then ⟨x.num * base.pow e.toNat, x.den⟩ else ⟨x.num, x.den * base.pow (-e).toNat⟩

/-- A whole number. -/
def ofNat (n : Nat) : Fraction := ⟨n, 1⟩

/-- The nearest whole number; a half goes to the even neighbour. -/
def round (x : Fraction) : Nat :=
  let below := x.num / x.den
  let twice := 2 * (x.num % x.den)
  if twice < x.den then below
  else if x.den < twice then below + 1
  else below + below % 2

end Fraction

end Formwork.Decimal
