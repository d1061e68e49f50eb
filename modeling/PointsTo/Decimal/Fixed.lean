/-!
# Numbers with a fixed number of places

A finite binary fraction is an integer times a power of two, so it is an exact quotient of integers,
and a decimal text with a given number of places is that quotient, scaled and rounded once.

## Main definitions

* `Decimal.Dyadic`: sign, integer and power of two of a fraction
* `Decimal.Dyadic.ofFloat`: the exact value of a floating-point number
* `Decimal.roundDiv`: a quotient rounded to the nearest integer, a half to the even neighbour
* `Decimal.fixed`: the text with a given number of places
-/

namespace PointsTo.Decimal

/-- The number `± mantissa * 2 ^ exponent`. -/
structure Dyadic where
  /-- Whether the sign is a minus. -/
  negative : Bool
  /-- The integer. -/
  mantissa : Nat
  /-- The power of two. -/
  exponent : Int
deriving DecidableEq, Repr

/-- The exact value of a finite floating-point number: one bit of sign, eleven of exponent, 52 of
mantissa, with a hidden leading bit unless the exponent is the least one. -/
def Dyadic.ofFloat (x : Float) : Dyadic :=
  let bits := x.toBits.toNat
  let fraction := bits % Nat.pow 2 52
  let exponent := bits / Nat.pow 2 52 % Nat.pow 2 11
  { negative := Nat.pow 2 63 ≤ bits
    mantissa := if exponent = 0 then fraction else Nat.pow 2 52 + fraction
    exponent := (if exponent = 0 then 1 else exponent : Nat) - 1075 }

/-- The absolute value as a quotient. -/
def Dyadic.quotient (d : Dyadic) : Nat × Nat :=
  (d.mantissa * Nat.pow 2 d.exponent.toNat, Nat.pow 2 (-d.exponent).toNat)

/-- The integer nearest to `num / den`; of two equally near ones the even one. -/
def roundDiv (num den : Nat) : Nat :=
  let q := num / den
  let r := num % den
  if 2 * r < den then q else if den < 2 * r then q + 1 else q + q % 2

/-- The decimal digits of a number, with zeros in front up to the given length. -/
def padded (length n : Nat) : List Char :=
  let digits := Nat.toDigits 10 n
  List.replicate (length - digits.length) '0' ++ digits

/-- **The text of a finite floating-point number with the given number of places**, rounded once
from the exact value. -/
def fixed (places : Nat) (x : Float) : String :=
  let d := Dyadic.ofFloat x
  let (num, den) := d.quotient
  let digits := padded (places + 1) (roundDiv (num * Nat.pow 10 places) den)
  let whole := digits.take (digits.length - places)
  let fraction := digits.drop (digits.length - places)
  let text := if places = 0 then whole else whole ++ '.' :: fraction
  String.ofList (if d.negative then '-' :: text else text)

end PointsTo.Decimal
