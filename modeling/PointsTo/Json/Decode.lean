import PointsTo.Json.Escape
import PointsTo.Json.Number
import PointsTo.Id

/-!
# Reading values as data

What a JSON value means as a number, a list, a choice or a record. A record is an object with its
fields in any order, fields of other names being skipped, or an array that lists all fields in their
order. A choice is the name of the chosen variant, or an object that gives the variant no content.

## Main definitions

* `Json.id?`, `Json.count?`, `Json.float?`, `Json.bool?`, `Json.text?`, `Json.ids?`: plain data
* `Json.variant?`: the name of a choice
* `Json.fields?`, `Json.leadingFields?`: the fields of a record
* `Json.required`, `Json.optional`, `Json.defaulted`: one field
* `Json.idTable?`: a table whose keys are identifiers
-/

namespace PointsTo.Json

/-- A natural number below the bound. -/
def natBelow? (bound : Nat) : Json → Option Nat
  | .number n => n.natBelow? bound
  | _ => none

/-- An identifier. -/
def id? (j : Json) : Option Nat := j.natBelow? Id.bound

/-- A count of 64 bits. -/
def count? (j : Json) : Option Nat := j.natBelow? Count.bound

/-- A floating-point number. -/
def float? : Json → Option Float
  | .number n => n.float?
  | _ => none

/-- A truth value. -/
def bool? : Json → Option Bool
  | .bool b => some b
  | _ => none

/-- A string. -/
def text? : Json → Option String
  | .string raw => unescape? raw
  | _ => none

/-- A list of identifiers. -/
def ids? : Json → Option (List Nat)
  | .array items => items.mapM id?
  | _ => none

/-- The name of a choice. -/
def variant? : Json → Option String
  | .string raw => unescape? raw
  | .object [(key, .null)] => unescape? key
  | _ => none

/-- The choice of a name among all choices. -/
def choice? {α : Type} (name : α → String) (all : List α) (j : Json) : Option α :=
  j.variant?.bind fun s => all.find? fun a => name a = s

/-! ## Records -/

/-- The field of a name, unless it stands twice. -/
def field? (members : List (String × Json)) (name : String) : Option (Option Json) :=
  match members.filter fun m => m.1 = name with
  | [] => some none
  | [(_, value)] => some (some value)
  | _ => none

/-- The fields of the given names, found in an object. -/
def memberFields? (names : List String) (members : List (List Char × Json)) :
    Option (List (Option Json)) :=
  match members.mapM fun m => (unescape? m.1).map (·, m.2) with
  | none => none
  | some members => names.mapM (field? members)

/-- **The fields of a record** in the order of the names. An array lists all of them. -/
def fields? (names : List String) : Json → Option (List (Option Json))
  | .object members => memberFields? names members
  | .array items => if items.length = names.length then some (items.map some) else none
  | _ => none

/-- The fields of a record of which an array may list the leading ones only. -/
def leadingFields? (names : List String) : Json → Option (List (Option Json))
  | .object members => memberFields? names members
  | .array items =>
    if items.length ≤ names.length then
      some (items.map some ++ List.replicate (names.length - items.length) none)
    else none
  | _ => none

/-- A field that has to be there. -/
def required {α : Type} (read : Json → Option α) (field : Option Json) : Option α :=
  field.bind read

/-- A field that may be missing or null. -/
def optional {α : Type} (read : Json → Option α) : Option Json → Option (Option α)
  | none | some .null => some none
  | some j => (read j).map some

/-- A field that takes the given value when it is missing. -/
def defaulted {α : Type} (value : α) (read : Json → Option α) : Option Json → Option α
  | none => some value
  | some j => read j

/-! ## Tables -/

/-- The identifier that a key writes: digits without a zero in front, and no escapes. -/
def idKey? (raw : List Char) : Option Nat :=
  if raw.all Char.isDigit && !raw.isEmpty && (raw.head? != some '0' || raw.length = 1) then
    Numeral.natBelow? Id.bound { whole := raw }
  else none

/-- **The entries of a table whose keys are identifiers**, as listed. -/
def idTable? {α : Type} (read : Json → Option α) : Json → Option (List (Nat × α))
  | .object members =>
    members.mapM fun (key, value) =>
      match idKey? key, read value with
      | some key, some value => some (key, value)
      | _, _ => none
  | _ => none

end PointsTo.Json
