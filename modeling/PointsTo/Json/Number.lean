import PointsTo.Decimal.Shortest
import PointsTo.Id
import PointsTo.Json.Syntax

/-!
# What numbers mean

A number without fraction, exponent and minus is a natural number. Any number is a floating-point
number: its leading digits, as many as fit into 64 bits, make an integer, which is multiplied or
divided by a power of ten in floating-point arithmetic. A number too great to be held is refused.

A floating-point number is written by its shortest decimal: positional from a hundred-thousandth up
to sixteen digits before the point, always with a digit after the point; otherwise with a power of
ten, plus or minus.

## Main definitions

* `Json.Numeral.natBelow?`: the natural number below a bound
* `Json.Numeral.float?`: the floating-point number
* `Json.Numeral.ofFloat`: how a floating-point number is written
-/

namespace PointsTo.Json

/-- The natural number that a text of digits, without fraction, exponent and minus, writes; it has
to lie below the bound. -/
def Numeral.natBelow? (bound : Nat) (n : Numeral) : Option Nat :=
  match n.negative, n.fraction, n.exponent with
  | false, none, none =>
    let value := Nat.ofDigitChars 10 n.whole 0
    if value < bound then some value else none
  | _, _, _ => none

/-- Appends digits to an integer while it stays below 64 bits; the digits that are left. -/
def absorbDigits (significand : Nat) : List Char → Nat × List Char
  | [] => (significand, [])
  | c :: rest =>
    let grown := significand * 10 + (c.toNat - 48)
    if grown < Count.bound then absorbDigits grown rest else (significand, c :: rest)

/-- Divides by the greatest power of ten that can be held until the power that is left can be held
too; zero stays zero. -/
def lowerPower : Nat → Float → Int → Float × Int
  | 0, x, power => (x, power)
  | fuel + 1, x, power =>
    if power < -308 ∧ x ≠ 0 then lowerPower fuel (x / Float.ofNat (Nat.pow 10 308)) (power + 308)
    else (x, power)

/-- The product of an integer and a power of ten. -/
def scale? (significand : Nat) (power : Int) : Option Float :=
  let (x, power) := lowerPower 3 (Float.ofNat significand) power
  if x == 0 then some x
  else if power < 0 then some (x / Float.ofNat (Nat.pow 10 power.natAbs))
  else if 308 < power then none
  else
    let x := x * Float.ofNat (Nat.pow 10 power.natAbs)
    if x.isInf then none else some x

/-- The greatest exponent that is counted. -/
def exponentLimit : Nat := 2147483647

/-- The absolute value of the number, given the power of ten of the last digit absorbed. -/
def scaleBy? (significand : Nat) (power : Int) (exponent : Option (Bool × List Char)) :
    Option Float :=
  match exponent with
  | none => scale? significand power
  | some (negative, digits) =>
    let size := Nat.ofDigitChars 10 digits 0
    if exponentLimit < size then
      if significand ≠ 0 && !negative then none else some 0
    else if negative then scale? significand (power - size)
    else scale? significand (power + size)

/-- The absolute value of the number. -/
def Numeral.magnitude? (n : Numeral) : Option Float :=
  let (significand, dropped) := absorbDigits 0 n.whole
  match n.fraction with
  | none => scaleBy? significand dropped.length n.exponent
  | some digits =>
    let (grown, rest) := absorbDigits significand digits
    scaleBy? grown (dropped.length - (digits.length - rest.length : Nat)) n.exponent

/-- **The floating-point number** that is written, if it can be held. -/
def Numeral.float? (n : Numeral) : Option Float :=
  n.magnitude?.map fun x => if n.negative then -x else x

/-! ## Writing -/

/-- How a positive decimal is written. -/
def Numeral.ofScientific (d : Decimal.Scientific) : Numeral :=
  let digits := Nat.toDigits 10 d.digits
  let point := d.exponent + digits.length
  if 0 ≤ d.exponent ∧ point ≤ 16 then
    { whole := digits ++ List.replicate d.exponent.toNat '0', fraction := some ['0'] }
  else if 0 < point ∧ point ≤ 16 then
    { whole := digits.take point.toNat, fraction := some (digits.drop point.toNat) }
  else if -5 < point ∧ point ≤ 0 then
    { whole := ['0'], fraction := some (List.replicate (-point).toNat '0' ++ digits) }
  else
    { whole := digits.take 1
      fraction := if digits.length = 1 then none else some (digits.drop 1)
      exponent := some (point < 1, Nat.toDigits 10 (point - 1).natAbs) }

/-- **How a finite floating-point number is written.** -/
def Numeral.ofFloat (x : Float) : Numeral :=
  let d := Decimal.Dyadic.ofFloat x
  let size : Numeral :=
    if d.mantissa = 0 then { whole := ['0'], fraction := some ['0'] }
    else .ofScientific (Decimal.shortest d)
  { size with negative := d.negative }

end PointsTo.Json
