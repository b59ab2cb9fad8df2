-- The written forms of doubles. All of them write the shortest digits that read back; they differ
-- in where the exponent form begins and in whether a whole number keeps a point.
import Formwork.Decimal.Shortest

namespace Formwork.Decimal

/-- How a double is written. -/
structure Layout where
  /-- Values from `10 ^ largest` on take the exponent form. -/
  largest : Option Int
  /-- Nonzero values below `10 ^ smallest` take the exponent form. -/
  smallest : Option Int
  /-- Whether a whole number in positional form ends with `.0`. -/
  keepsPoint : Bool
  /-- Whether an exponent that is not negative has a sign. -/
  signsExponent : Bool
  /-- Which of two equally near decimals is written. -/
  tie : Tie

/-- Never an exponent and never a needless point. -/
def Layout.plain : Layout := ⟨none, none, false, false, .toLarger⟩

/-- Always a point or an exponent; exponents from `10 ^ 16` on and below `10 ^ -4`. -/
def Layout.exact : Layout := ⟨some 16, some (-4), true, false, .toLarger⟩

/-- As numbers stand in documents: always a point or an exponent; exponents, with a sign, from
`10 ^ 16` on and below `10 ^ -5`. -/
def Layout.document : Layout := ⟨some 16, some (-5), true, true, .toEven⟩

/-- Digits with the point `places` digits after the start; zeros fill both sides. -/
def positional (digits : List Char) (places : Int) (keepsPoint : Bool) : String :=
  if places ≤ 0 then
    "0." ++ String.ofList (List.replicate (-places).toNat '0' ++ digits)
  else if digits.length ≤ places.toNat then
    String.ofList (digits ++ List.replicate (places.toNat - digits.length) '0')
      ++ (if keepsPoint then ".0" else "")
  else
    String.ofList (digits.take places.toNat) ++ "." ++ String.ofList (digits.drop places.toNat)

/-- One digit, the others after a point, and the power of ten of the first. -/
def scientific (digits : List Char) (places : Int) (signsExponent : Bool) : String :=
  let tail := digits.drop 1
  let sign := if signsExponent && 1 ≤ places then "+" else ""
  String.ofList (digits.take 1) ++ (if tail.isEmpty then "" else "." ++ String.ofList tail)
    ++ "e" ++ sign ++ toString (places - 1)

/-- The written form of a positive finite double. -/
def Layout.positive (layout : Layout) (bits : Nat) : String :=
  let d := shortest layout.tie bits
  let digits := Nat.toDigits 10 d.digits
  let places : Int := digits.length + d.exponent
  let tooLarge := layout.largest.any fun n => n < places
  let tooSmall := layout.smallest.any fun n => places ≤ n
  if tooLarge || tooSmall then scientific digits places layout.signsExponent
  else positional digits places layout.keepsPoint

/-- The written form of a double. -/
def Layout.write (layout : Layout) (x : Float) : String :=
  if x.isNaN then "NaN"
  else
    let bits := x.toBits.toNat
    let sign := if bits < Nat.pow 2 63 then "" else "-"
    let magnitude := bits % Nat.pow 2 63
    if magnitude = 0 then sign ++ (if layout.keepsPoint then "0.0" else "0")
    else if x.isInf then sign ++ "inf"
    else sign ++ layout.positive magnitude

end Formwork.Decimal
