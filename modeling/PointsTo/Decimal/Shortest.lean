import PointsTo.Decimal.Fixed

/-!
# The shortest decimal that reads back

A floating-point number stands for an interval of real numbers, those that round to it. Of the
decimals in that interval the one with the fewest digits is written, and of several with that many
digits the nearest one, an even last digit deciding a tie.

The decimals with a given number of digits form a grid. If a point of the grid lies in the interval,
so does one of the two neighbours of the number on the grid; so the search looks at these two, on
finer and finer grids.

## Main definitions

* `Decimal.Interval`: the number and the ends of its interval, as multiples of one unit
* `Decimal.Scientific`: a decimal as an integer times a power of ten
* `Decimal.shortest`: the shortest decimal of a floating-point number
-/

namespace PointsTo.Decimal

/-- A positive number and the ends of the interval of reals that round to it, each over `den`. -/
structure Interval where
  /-- The lower end. -/
  low : Nat
  /-- The number. -/
  mid : Nat
  /-- The upper end. -/
  high : Nat
  /-- The denominator of all three. -/
  den : Nat
  /-- Whether the ends themselves round to the number. -/
  closed : Bool

/-- The interval of a positive number with a mantissa of 53 bits. Below a power of two the numbers
lie closer, so the lower end is nearer; the least exponent has no such neighbour. -/
def Interval.ofDyadic (d : Dyadic) : Interval :=
  let shift := d.exponent - 2
  let scale := Nat.pow 2 shift.toNat
  let below := if d.mantissa = Nat.pow 2 52 ∧ d.exponent ≠ -1074 then 1 else 2
  { low := (4 * d.mantissa - below) * scale
    mid := 4 * d.mantissa * scale
    high := (4 * d.mantissa + 2) * scale
    den := Nat.pow 2 (-shift).toNat
    closed := d.mantissa % 2 = 0 }

/-- The number `digits * 10 ^ exponent`. -/
structure Scientific where
  /-- The digits as an integer. -/
  digits : Nat
  /-- The power of ten. -/
  exponent : Int
deriving DecidableEq, Repr

/-- Whether `n * 10 ^ exponent` lies in the interval. -/
def Interval.holds (i : Interval) (n : Nat) (exponent : Int) : Bool :=
  let point := n * Nat.pow 10 exponent.toNat * i.den
  let unit := Nat.pow 10 (-exponent).toNat
  if i.closed then i.low * unit ≤ point && point ≤ i.high * unit
  else i.low * unit < point && point < i.high * unit

/-- Of the two neighbours of the number on the grid of `10 ^ exponent`, the nearest one in the
interval; an even one decides a tie. -/
def Interval.onGrid (i : Interval) (exponent : Int) : Option Nat :=
  let num := i.mid * Nat.pow 10 (-exponent).toNat
  let den := i.den * Nat.pow 10 exponent.toNat
  let near := roundDiv num den
  let other := if near = num / den then num / den + 1 else num / den
  if i.holds near exponent then some near
  else if i.holds other exponent then some other
  else none

/-- The power of ten of the leading digit, from an estimate that is at least as great. -/
def Interval.leading (i : Interval) : Nat → Int → Int
  | 0, estimate => estimate
  | fuel + 1, estimate =>
    if i.den * Nat.pow 10 estimate.toNat ≤ i.mid * Nat.pow 10 (-estimate).toNat then estimate
    else i.leading fuel (estimate - 1)

/-- The first grid, from `count` digits on, with a neighbour in the interval. -/
def Interval.search (i : Interval) (lead : Int) : Nat → Nat → Scientific
  | 0, count => ⟨(i.onGrid (lead + 1 - count)).getD 0, lead + 1 - count⟩
  | fuel + 1, count =>
    match i.onGrid (lead + 1 - count) with
    | some n => ⟨n, lead + 1 - count⟩
    | none => i.search lead fuel (count + 1)

/-- Moves zeros at the end of the digits into the power of ten. -/
def Scientific.trim : Nat → Scientific → Scientific
  | 0, d => d
  | fuel + 1, d =>
    if d.digits ≠ 0 ∧ d.digits % 10 = 0 then trim fuel ⟨d.digits / 10, d.exponent + 1⟩ else d

/-- **The shortest decimal** that reads back as the given positive number. Seventeen digits always
suffice. -/
def shortest (d : Dyadic) : Scientific :=
  let i := Interval.ofDyadic d
  (i.search (i.leading 640 309) 16 1).trim 32

end PointsTo.Decimal
