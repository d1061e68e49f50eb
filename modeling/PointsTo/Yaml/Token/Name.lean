import PointsTo.Digit
import PointsTo.Yaml.Spot
import PointsTo.Yaml.Token

/-!
# Names, tags and directives

The tokens that begin with a sign of their own: the name of a node, the tag of a node, and the
directives in front of a document.

## Main definitions

* `Yaml.name?`: the name of a node
* `Yaml.tag?`: a tag
* `Yaml.directive?`: a directive
-/

namespace PointsTo.Yaml

/-- The name behind the sign of an anchor or alias. It ends with a space or with a character that
cannot be part of it. -/
def name? (spots : List Spot) : Option (List Char × List Spot) :=
  let (name, rest) := spanWhile isWord spots
  let ends := match rest with
    | [] => true
    | s :: _ => isSpace s.char || "?:,]\x7d%@\x60".toList.contains s.char
  if name.isEmpty || !ends then none else some (name, rest)

/-! ## Tags -/

/-- Whether the character may stand in a tag; inside angle brackets more of them may. -/
def isTagChar (verbatim : Bool) (c : Char) : Bool :=
  isWord c || ";/?:@&=+$.!~*'()".toList.contains c || (verbatim && ",[]".toList.contains c)

/-- How many bytes the character takes of which the first byte is given. -/
def byteCount? (b : Nat) : Option Nat :=
  if b < 0x80 then some 1
  else if 0xC0 ≤ b ∧ b < 0xE0 then some 2
  else if 0xE0 ≤ b ∧ b < 0xF0 then some 3
  else if 0xF0 ≤ b ∧ b < 0xF8 then some 4
  else none

/-- Checks a byte written by its code, when so many bytes of a character are still missing; how many
are missing afterwards. -/
def missingAfter? (missing b : Nat) : Option Nat :=
  if missing = 0 then (byteCount? b).map (· - 1)
  else if 0x80 ≤ b ∧ b < 0xC0 then some (missing - 1)
  else none

/-- The bytes of a tag, the ones so far given newest first. A byte may be written by its code, and
then all bytes of the character are. -/
def tagBytes? (verbatim : Bool) (missing : Nat) (bytes : List UInt8) :
    List Spot → Option (List UInt8 × List Spot)
  | [] => if missing = 0 then some (bytes.reverse, []) else none
  | s :: rest =>
    if s.char == '%' then
      match rest with
      | t :: u :: rest =>
        match hexDigit? t.char, hexDigit? u.char with
        | some high, some low =>
          let b := 16 * high + low
          match missingAfter? missing b with
          | some missing => tagBytes? verbatim missing (b.toUInt8 :: bytes) rest
          | none => none
        | _, _ => none
      | _ => none
    else if missing ≠ 0 then none
    else if isTagChar verbatim s.char then
      tagBytes? verbatim 0 (s.char.toNat.toUInt8 :: bytes) rest
    else some (bytes.reverse, s :: rest)

/-- What counts of the bytes of a tag: those in front of the first zero. -/
def tagText (bytes : List UInt8) : List UInt8 := bytes.takeWhile (· ≠ 0)

/-- The text of a tag, of which at least one byte has to be written. -/
def tagText? (verbatim : Bool) (spots : List Spot) : Option (List UInt8 × List Spot) :=
  match tagBytes? verbatim 0 [] spots with
  | some ([], _) => none
  | found => found.map fun (bytes, rest) => (tagText bytes, rest)

/-- The tag behind its sign, if all of it is given in angle brackets. -/
def verbatimTag? (spots : List Spot) : Option (WrittenTag × List Spot) := do
  let (suffix, rest) ← tagText? true spots
  if startsWith '>' rest then some (⟨[], suffix⟩, rest.drop 1) else none

/-- The tag behind its sign, with a handle. The sign alone is the handle when no other one is
closed, and a tag of its own when nothing follows it. -/
def shortTag? (spots : List Spot) : Option (WrittenTag × List Spot) :=
  let (word, rest) := spanWhile isWord spots
  if startsWith '!' rest then
    (tagText? false (rest.drop 1)).map fun (suffix, rest) => (⟨'!' :: word ++ ['!'], suffix⟩, rest)
  else
    (tagBytes? false 0 (word.map fun c => c.toNat.toUInt8).reverse rest).map fun (bytes, rest) =>
      let suffix := tagText bytes
      (if suffix.isEmpty then ⟨[], [33]⟩ else ⟨['!'], suffix⟩, rest)

/-- **The tag behind its sign.** A space has to follow, or inside brackets a comma. -/
def tag? (flow : Bool) (spots : List Spot) : Option (WrittenTag × List Spot) := do
  let (written, rest) ←
    if startsWith '<' spots then verbatimTag? (spots.drop 1) else shortTag? spots
  if endsWord rest || (flow && startsWith ',' rest) then some (written, rest) else none

/-! ## Directives -/

/-- A number of at most nine digits. -/
def versionNumber? (spots : List Spot) : Option (Nat × List Spot) :=
  let (digits, rest) := spanWhile Char.isDigit spots
  if digits.isEmpty || 9 < digits.length then none else some (Nat.ofDigitChars 10 digits 0, rest)

/-- The version that a directive states. -/
def versionDirective? (spots : List Spot) : Option (Token × List Spot) := do
  let (major, rest) ← versionNumber? (skipWhile isBlank spots)
  if startsWith '.' rest then
    let (minor, rest) ← versionNumber? (rest.drop 1)
    some (.version major minor, rest)
  else none

/-- The handle that a directive declares, from its sign on. -/
def declaredHandle? (spots : List Spot) : Option (List Char × List Spot) :=
  if startsWith '!' spots then
    let (word, rest) := spanWhile isWord (spots.drop 1)
    if startsWith '!' rest then some ('!' :: word ++ ['!'], rest.drop 1)
    else if word.isEmpty then some (['!'], rest)
    else none
  else none

/-- The handle that a directive declares and the text that it stands for. -/
def tagDirective? (spots : List Spot) : Option (Token × List Spot) := do
  let (handle, rest) ← declaredHandle? (skipWhile isBlank spots)
  let (gap, rest) := spanWhile isBlank rest
  if gap.isEmpty then none
  else
    let (stem, rest) ← tagText? true rest
    if endsWord rest then some (.tagHandle handle stem, rest) else none

/-- **The directive behind its sign**, up to the end of the line. -/
def directive? (spots : List Spot) : Option (Token × List Spot) := do
  let (word, rest) := spanWhile isWord spots
  if !endsWord rest then none
  else
    let (token, rest) ←
      if word = "YAML".toList then versionDirective? rest
      else if word = "TAG".toList then tagDirective? rest
      else none
    return (token, ← restOfLine? rest)

end PointsTo.Yaml
