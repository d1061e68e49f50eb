import PointsTo.Json.Escape
import PointsTo.Json.Syntax

/-!
# Reading JSON

The grammar of JSON texts, strictly: no comma behind the last item, no zero in front of a number, no
bare control character in a string, nothing but blanks around the value.

Each part of the grammar takes the characters that are left and answers the value it found with the
characters behind it.

## Main definitions

* `Json.readNumeral`, `Json.readString`: the leaves
* `Json.readValue`: a value
* `Json.parse?`: a whole text
-/

namespace PointsTo.Json

/-- Whether the character may stand between the parts of a value. -/
def isBlank (c : Char) : Bool := c = ' ' || c = '\n' || c = '\t' || c = '\r'

/-- The characters behind the blanks. -/
def skipBlanks (cs : List Char) : List Char := cs.dropWhile isBlank

/-- The digits in front, at least one. -/
def readDigits (cs : List Char) : Option (List Char × List Char) :=
  match cs.takeWhile Char.isDigit with
  | [] => none
  | digits => some (digits, cs.dropWhile Char.isDigit)

/-- The digits before the point: a zero stands alone. -/
def readWhole (cs : List Char) : Option (List Char × List Char) :=
  match readDigits cs with
  | some ('0' :: _ :: _, _) => none
  | found => found

/-- The digits behind a point, if there is one. -/
def readFraction (cs : List Char) : Option (Option (List Char) × List Char) :=
  match cs with
  | '.' :: rest => (readDigits rest).map fun (digits, rest) => (some digits, rest)
  | _ => some (none, cs)

/-- The sign of an exponent: whether it is a minus. -/
def readSign (cs : List Char) : Bool × List Char :=
  match cs with
  | '+' :: rest => (false, rest)
  | '-' :: rest => (true, rest)
  | _ => (false, cs)

/-- The exponent, if there is one. -/
def readExponent (cs : List Char) : Option (Option (Bool × List Char) × List Char) :=
  match cs with
  | 'e' :: rest | 'E' :: rest =>
    let (negative, rest) := readSign rest
    (readDigits rest).map fun (digits, rest) => (some (negative, digits), rest)
  | _ => some (none, cs)

/-- **A number**, its minus aside. -/
def readNumeral (negative : Bool) (cs : List Char) : Option (Numeral × List Char) :=
  match readWhole cs with
  | none => none
  | some (whole, cs) =>
    match readFraction cs with
    | none => none
    | some (fraction, cs) =>
      (readExponent cs).map fun (exponent, cs) => ({ negative, whole, fraction, exponent }, cs)

/-- **The text of a string** and what follows its closing quote. Escapes are checked for their form
and kept. -/
def readString : List Char → Option (List Char × List Char)
  | [] => none
  | '"' :: rest => some ([], rest)
  | '\\' :: 'u' :: a :: b :: c :: d :: rest =>
    match hexNumber? a b c d with
    | none => none
    | some _ =>
      (readString rest).map fun (raw, rest) => ('\\' :: 'u' :: a :: b :: c :: d :: raw, rest)
  | '\\' :: c :: rest =>
    match namedEscape? c with
    | none => none
    | some _ => (readString rest).map fun (raw, rest) => ('\\' :: c :: raw, rest)
  | c :: rest =>
    if c.toNat < 32 || c = '\\' then none
    else (readString rest).map fun (raw, rest) => (c :: raw, rest)

/-- What follows the blanks and the given character. -/
def expect (c : Char) (cs : List Char) : Option (List Char) :=
  match skipBlanks cs with
  | d :: rest => if d = c then some rest else none
  | [] => none

/-- A word and what follows it. -/
def readWord (word : List Char) (value : Json) (cs : List Char) : Option (Json × List Char) :=
  if word.isPrefixOf cs then some (value, cs.drop word.length) else none

mutual

/-- **A value**, blanks in front of it allowed. -/
def readValue : Nat → List Char → Option (Json × List Char)
  | 0, _ => none
  | fuel + 1, cs =>
    match skipBlanks cs with
    | [] => none
    | '"' :: rest => (readString rest).map fun (raw, rest) => (.string raw, rest)
    | '[' :: rest =>
      match skipBlanks rest with
      | ']' :: rest => some (.array [], rest)
      | _ => (readItems fuel rest).map fun (items, rest) => (.array items, rest)
    | '\x7b' :: rest =>
      match skipBlanks rest with
      | '\x7d' :: rest => some (.object [], rest)
      | _ => (readMembers fuel rest).map fun (members, rest) => (.object members, rest)
    | '-' :: rest => (readNumeral true rest).map fun (n, rest) => (.number n, rest)
    | 'n' :: rest => readWord "null".toList .null ('n' :: rest)
    | 't' :: rest => readWord "true".toList (.bool true) ('t' :: rest)
    | 'f' :: rest => readWord "false".toList (.bool false) ('f' :: rest)
    | cs => (readNumeral false cs).map fun (n, rest) => (.number n, rest)

/-- The items of an array and what follows its bracket. -/
def readItems : Nat → List Char → Option (List Json × List Char)
  | 0, _ => none
  | fuel + 1, cs =>
    match readValue fuel cs with
    | none => none
    | some (item, rest) =>
      match skipBlanks rest with
      | ']' :: rest => some ([item], rest)
      | ',' :: rest => (readItems fuel rest).map fun (items, rest) => (item :: items, rest)
      | _ => none

/-- The members of an object and what follows its brace. -/
def readMembers : Nat → List Char → Option (List (List Char × Json) × List Char)
  | 0, _ => none
  | fuel + 1, cs =>
    match (expect '"' cs).bind readString with
    | none => none
    | some (key, rest) =>
      match (expect ':' rest).bind (readValue fuel) with
      | none => none
      | some (value, rest) =>
        match skipBlanks rest with
        | '\x7d' :: rest => some ([(key, value)], rest)
        | ',' :: rest =>
          (readMembers fuel rest).map fun (members, rest) => ((key, value) :: members, rest)
        | _ => none

end

/-- Every second call of the grammar takes a character, so this many calls are enough. -/
def depthBound (cs : List Char) : Nat := 2 * cs.length + 2

/-- **The value of a whole text**, blanks around it allowed. -/
def parse? (text : String) : Option Json :=
  let cs := text.toList
  match readValue (depthBound cs) cs with
  | none => none
  | some (value, rest) => if (skipBlanks rest).isEmpty then some value else none

end PointsTo.Json
