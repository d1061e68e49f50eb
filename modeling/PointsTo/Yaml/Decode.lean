import PointsTo.Digit
import PointsTo.Id
import PointsTo.Yaml.Document

/-!
# Reading scalars as data

What a scalar means as a truth value, a number or a choice. Only a plain scalar means anything but
its text; a literal block may be tagged to be read like a plain one. A choice may also be told by a
tag of its own in front of nothing.

## Main definitions

* `Yaml.Content.text?`, `Yaml.Content.bool?`, `Yaml.Content.count?`, `Yaml.Content.choice?`: data
* `Yaml.Content.optional?`: data that may be missing
-/

namespace PointsTo.Yaml

/-- The tag of a kind of data. -/
def dataTag (kind : String) : List UInt8 := ("tag:yaml.org,2002:" ++ kind).toUTF8.toList

/-- Whether the word means that there is nothing. -/
def isNullWord (cs : List Char) : Bool :=
  ["null", "Null", "NULL", "~"].any fun word => word.toList == cs

/-- The truth value of a word. -/
def boolOfWord? (cs : List Char) : Option Bool :=
  if ["true", "True", "TRUE"].any fun word => word.toList == cs then some true
  else if ["false", "False", "FALSE"].any fun word => word.toList == cs then some false
  else none

/-- The number that digits write, with a sign for the base or in decimal without zeros in front. -/
def unsigned? (cs : List Char) : Option Nat :=
  match cs with
  | '0' :: 'x' :: digits => digitsValue? 16 digits
  | '0' :: 'o' :: digits => digitsValue? 8 digits
  | '0' :: 'b' :: digits => digitsValue? 2 digits
  | '0' :: _ :: _ => none
  | [] => none
  | digits => if digits.all Char.isDigit then some (Nat.ofDigitChars 10 digits 0) else none

/-- The number of at most 64 bits that a word writes; a plus may stand in front. -/
def countOfWord? (cs : List Char) : Option Nat :=
  let digits := match cs with
    | '+' :: rest => rest
    | _ => cs
  match unsigned? digits with
  | some n => if n < Count.bound then some n else none
  | none => none

namespace Scalar

/-- Whether the scalar is read as data of the given kind. -/
def readsAs (s : Scalar) (kind : String) : Bool :=
  s.style == .plain || (s.style == .literal && s.tag == some (dataTag kind))

/-- Whether there is nothing: an empty plain scalar, or a word that says so. -/
def isNull (s : Scalar) : Bool := s.style == .plain && (s.text.isEmpty || isNullWord s.text)

/-- The name that a tag of one's own gives. -/
def ownTag? (s : Scalar) : Option String :=
  match s.tag with
  | some (33 :: name) => String.fromUTF8? ⟨name.toArray⟩
  | _ => none

end Scalar

namespace Content

/-- A text, however it is written. -/
def text? : Content → Option String
  | .scalar s => some (String.ofList s.text)
  | .collection => none

/-- A truth value. -/
def bool? : Content → Option Bool
  | .scalar s => if s.readsAs "bool" then boolOfWord? s.text else none
  | .collection => none

/-- A number of at most 64 bits. -/
def count? : Content → Option Nat
  | .scalar s => if s.readsAs "int" then countOfWord? s.text else none
  | .collection => none

/-- The name of a choice: what the scalar says, or its own tag in front of nothing. -/
def variant? : Content → Option String
  | .scalar s =>
    match s.ownTag? with
    | none => some (String.ofList s.text)
    | some name => if s.isNull then some name else none
  | .collection => none

/-- The choice of a name among all choices. -/
def choice? {α : Type} (name : α → String) (all : List α) (c : Content) : Option α :=
  c.variant?.bind fun s => all.find? fun a => name a = s

/-- Data that may be missing. A plain scalar without a tag that says so is missing; one that is
tagged to be nothing has to say so. -/
def optional? {α : Type} (read : Content → Option α) (c : Content) : Option (Option α) :=
  match c with
  | .collection => (read c).map some
  | .scalar s =>
    if s.style ≠ .plain then (read c).map some
    else
      match s.tag with
      | none => if s.isNull then some none else (read c).map some
      | some tag =>
        if tag = dataTag "null" then if isNullWord s.text then some none else none
        else (read c).map some

end Content

end PointsTo.Yaml
