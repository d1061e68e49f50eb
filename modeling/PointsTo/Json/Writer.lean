import PointsTo.Json.Escape
import PointsTo.Json.Syntax

/-!
# Writing JSON

A value is written either without any blanks or over several lines, each level indented by two.

## Main definitions

* `Json.compact`: the text without blanks
* `Json.pretty`: the text over several lines
* `Json.ofNat`, `Json.ofString`, `Json.ofOption`: values to write
-/

namespace PointsTo.Json

/-- The number as a value. -/
def ofNat (n : Nat) : Json := .number { whole := Nat.toDigits 10 n }

/-- The string as a value. -/
def ofString (s : String) : Json := .string (escape s)

/-- The value, or null. -/
def ofOption {α : Type} (f : α → Json) : Option α → Json
  | none => .null
  | some a => f a

/-- The numbers as a value. -/
def ofNats (ns : List Nat) : Json := .array (ns.map ofNat)

/-- The members with their names as a value. -/
def ofMembers (members : List (String × Json)) : Json :=
  .object (members.map fun (name, value) => (escape name, value))

/-- The text of a number. An exponent always has its sign. -/
def Numeral.text (n : Numeral) : List Char :=
  let fraction := match n.fraction with
    | none => []
    | some digits => '.' :: digits
  let exponent := match n.exponent with
    | none => []
    | some (negative, digits) => 'e' :: (if negative then '-' else '+') :: digits
  (if n.negative then ['-'] else []) ++ n.whole ++ fraction ++ exponent

/-- The text of a string. -/
def quoted (raw : List Char) : List Char := '"' :: raw ++ ['"']

mutual

/-- The characters of a value without blanks. -/
def compactChars : Json → List Char
  | .null => "null".toList
  | .bool b => (if b then "true" else "false").toList
  | .number n => n.text
  | .string raw => quoted raw
  | .array [] => ['[', ']']
  | .array (item :: items) => '[' :: compactChars item ++ compactItems items
  | .object [] => ['\x7b', '\x7d']
  | .object ((key, value) :: members) =>
    '\x7b' :: quoted key ++ ':' :: compactChars value ++ compactMembers members

/-- The items behind the first one, and the bracket. -/
def compactItems : List Json → List Char
  | [] => [']']
  | item :: items => ',' :: compactChars item ++ compactItems items

/-- The members behind the first one, and the brace. -/
def compactMembers : List (List Char × Json) → List Char
  | [] => ['\x7d']
  | (key, value) :: members =>
    ',' :: quoted key ++ ':' :: compactChars value ++ compactMembers members

end

/-- **The text of a value without blanks.** -/
def compact (j : Json) : String := String.ofList (compactChars j)

/-- A new line, indented to the given level. -/
def lineBreak (level : Nat) : List Char := '\n' :: List.replicate (2 * level) ' '

mutual

/-- The characters of a value over several lines, at the given level. -/
def prettyChars (level : Nat) : Json → List Char
  | .array (item :: items) =>
    '[' :: lineBreak (level + 1) ++ prettyChars (level + 1) item ++ prettyItems level items
  | .object ((key, value) :: members) =>
    '\x7b' :: lineBreak (level + 1) ++ quoted key ++ ':' :: ' ' :: prettyChars (level + 1) value
      ++ prettyMembers level members
  | .array [] => ['[', ']']
  | .object [] => ['\x7b', '\x7d']
  | .null => "null".toList
  | .bool b => (if b then "true" else "false").toList
  | .number n => n.text
  | .string raw => quoted raw

/-- The items behind the first one, and the bracket. -/
def prettyItems (level : Nat) : List Json → List Char
  | [] => lineBreak level ++ [']']
  | item :: items =>
    ',' :: lineBreak (level + 1) ++ prettyChars (level + 1) item ++ prettyItems level items

/-- The members behind the first one, and the brace. -/
def prettyMembers (level : Nat) : List (List Char × Json) → List Char
  | [] => lineBreak level ++ ['\x7d']
  | (key, value) :: members =>
    ',' :: lineBreak (level + 1) ++ quoted key ++ ':' :: ' ' :: prettyChars (level + 1) value
      ++ prettyMembers level members

end

/-- **The text of a value over several lines.** -/
def pretty (j : Json) : String := String.ofList (prettyChars 0 j)

end PointsTo.Json
