/-!
# JSON values as written

A JSON value keeps its numbers and strings as the text wrote them: what a number or a string means
depends on who reads it, and a reader that skips a value asks for its grammar only.

## Main definitions

* `Json`: the values
* `Json.Numeral`: a number as written
-/

namespace PointsTo

/-- A number as written. -/
structure Json.Numeral where
  /-- Whether a minus stands in front. -/
  negative : Bool := false
  /-- The digits before the point. -/
  whole : List Char
  /-- The digits after the point. -/
  fraction : Option (List Char) := none
  /-- The exponent: whether it has a minus, and its digits. -/
  exponent : Option (Bool × List Char) := none
deriving DecidableEq, Repr

/-- A JSON value. Strings are what stands between the quotes, escapes included. -/
inductive Json where
  | null
  | bool (b : Bool)
  | number (n : Json.Numeral)
  | string (raw : List Char)
  | array (items : List Json)
  | object (members : List (List Char × Json))
deriving Repr, Inhabited

end PointsTo
