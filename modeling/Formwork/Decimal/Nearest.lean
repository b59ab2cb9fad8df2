-- The double nearest to a fraction. A double keeps 53 bits, the last of which stands for a power of
-- two that is never below `2 ^ -1074`; a fraction halfway between two doubles goes to the one whose
-- last bit is zero, and a fraction beyond all doubles to infinity.
import Formwork.Decimal.Fraction

namespace Formwork.Decimal

/-- The power of two that the last bit of the nearest double stands for. Two numbers of as many bits
as numerator and denominator have a quotient within a factor of two of that power times `2 ^ 52`. -/
def Fraction.lastBit (x : Fraction) : Int :=
  let e : Int := (x.num.log2 : Int) - x.den.log2 - 52
  let scaled := x.scale 2 (-e)
  max (if scaled.num < Nat.pow 2 52 * scaled.den then e - 1 else e) (-1074)

/-- The bits of the nearest double. A significand that rounds up to `2 ^ 53` carries into the
exponent. -/
def Fraction.nearestBits (x : Fraction) : Nat :=
  let e := x.lastBit
  let significand := (x.scale 2 (-e)).round
  min ((e + 1074).toNat * Nat.pow 2 52 + significand) (2047 * Nat.pow 2 52)

/-- The nearest double. -/
def Fraction.nearest (x : Fraction) : Float := Float.ofBits (UInt64.ofNat x.nearestBits)

/-- The double nearest to `n · 10 ^ e`. Exponents that are out of reach for every double are
answered without computing the power. -/
def nearest (n : Nat) (e : Int) : Float :=
  let size : Int := (Nat.toDigits 10 n).length + e
  if n = 0 || size < -400 then 0.0
  else if 400 < size then 1.0 / 0.0
  else ((Fraction.ofNat n).scale 10 e).nearest

end Formwork.Decimal
