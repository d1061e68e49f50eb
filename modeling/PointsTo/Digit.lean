/-!
# Digits

The values of hexadecimal digits, and numbers written with them in any base up to sixteen.

## Main definitions

* `hexDigit?`: the value of a digit
* `digitsValue?`: the number that digits write in a base
-/

namespace PointsTo

/-- The value of a hexadecimal digit. -/
def hexDigit? (c : Char) : Option Nat :=
  if '0' ≤ c ∧ c ≤ '9' then some (c.toNat - 48)
  else if 'a' ≤ c ∧ c ≤ 'f' then some (c.toNat - 87)
  else if 'A' ≤ c ∧ c ≤ 'F' then some (c.toNat - 55)
  else none

/-- The value of a digit of the base. -/
def baseDigit? (base : Nat) (c : Char) : Option Nat :=
  match hexDigit? c with
  | some n => if n < base then some n else none
  | none => none

/-- **The number that digits write in a base**, at least one of them. -/
def digitsValue? (base : Nat) (cs : List Char) : Option Nat :=
  match cs.mapM (baseDigit? base) with
  | none | some [] => none
  | some values => some (values.foldl (fun n d => base * n + d) 0)

end PointsTo
