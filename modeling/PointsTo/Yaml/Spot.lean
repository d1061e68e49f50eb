/-!
# Characters and their places

In YAML a line break and the column of a character carry meaning. A text is therefore read as a list
of characters that know their line and column, each written line break being one character. Lengths
on a line are measured in bytes.

## Main definitions

* `Yaml.Spot`: a character with its place
* `Yaml.Spot.ofText?`: the characters of a text
* `Yaml.isBreak`, `Yaml.isBlank`, `Yaml.isWord`: the classes of characters
* `Yaml.endsWord`, `Yaml.startsLineWith`, `Yaml.restOfLine?`: looking at what follows
-/

namespace PointsTo.Yaml

/-! ## Classes of characters -/

/-- Whether the character breaks a line, once `unifyBreaks` was applied. -/
def isBreak (c : Char) : Bool := c == '\n' || c == '\u2028' || c == '\u2029'

/-- Whether the character is a blank within a line. -/
def isBlank (c : Char) : Bool := c == ' ' || c == '\t'

/-- Whether the character is a blank or breaks a line. -/
def isSpace (c : Char) : Bool := isBlank c || isBreak c

/-- Whether the character may stand in a name. -/
def isWord (c : Char) : Bool := c.isAlphanum || c == '_' || c == '-'

/-- Whether the character parts the items of a collection in brackets. -/
def isFlowMark (c : Char) : Bool :=
  c == ',' || c == '[' || c == ']' || c == '\x7b' || c == '\x7d'

/-- Whether the character may stand in a text at all. -/
def isAllowed (c : Char) : Bool :=
  c == '\t' || c == '\n' || c == '\r' || c == '\u0085' || (' ' ≤ c && c ≤ '~')
    || ('\u00a0' ≤ c && c != '\ufffe' && c != '\uffff')

/-! ## Places -/

/-- A character with its place in the text. -/
structure Spot where
  /-- The character. -/
  char : Char
  /-- Its line, from zero. -/
  line : Nat
  /-- Its column, from zero. -/
  column : Nat
  /-- The number of bytes in front of it on its line. -/
  offset : Nat
deriving DecidableEq, Repr

/-- Writes every line break in use on some system as a line feed. -/
def unifyBreaks : List Char → List Char
  | [] => []
  | '\r' :: '\n' :: rest => '\n' :: unifyBreaks rest
  | '\r' :: rest => '\n' :: unifyBreaks rest
  | '\u0085' :: rest => '\n' :: unifyBreaks rest
  | c :: rest => c :: unifyBreaks rest

/-- Characters with their places, the first one at the given place. -/
def place (line column offset : Nat) : List Char → List Spot
  | [] => []
  | c :: rest =>
    ⟨c, line, column, offset⟩ ::
      if isBreak c then place (line + 1) 0 0 rest
      else place line (column + 1) (offset + c.utf8Size) rest

/-- **The characters of a text with their places.** -/
def Spot.ofText? (text : String) : Option (List Spot) :=
  if text.toList.all isAllowed then some (place 0 0 0 (unifyBreaks text.toList)) else none

/-- Whether it is a byte order mark at the beginning of a line. -/
def Spot.isByteOrderMark (s : Spot) : Bool := s.column == 0 && s.char == '\ufeff'

/-! ## Looking ahead -/

/-- Whether a word ends here: a space follows, or nothing. -/
def endsWord : List Spot → Bool
  | [] => true
  | s :: _ => isSpace s.char

/-- Whether the character follows. -/
def startsWith (c : Char) : List Spot → Bool
  | [] => false
  | s :: _ => s.char == c

/-- Whether three of the given character stand at the beginning of a line as a word of their own. -/
def startsLineWith (c : Char) : List Spot → Bool
  | s :: t :: u :: rest =>
    s.column == 0 && s.char == c && t.char == c && u.char == c && endsWord rest
  | _ => false

/-- Whether a line begins with the mark that starts or ends a document. -/
def startsWithMarker (spots : List Spot) : Bool :=
  startsLineWith '-' spots || startsLineWith '.' spots

/-- The characters in front that satisfy a test, and what follows them. -/
def spanWhile (p : Char → Bool) : List Spot → List Char × List Spot
  | [] => ([], [])
  | s :: rest =>
    if p s.char then
      let (found, rest) := spanWhile p rest
      (s.char :: found, rest)
    else ([], s :: rest)

/-- What follows the characters in front that satisfy a test. -/
def skipWhile (p : Char → Bool) (spots : List Spot) : List Spot := (spanWhile p spots).2

/-- The next line, if nothing but blanks and a comment is left on this one. -/
def restOfLine? (spots : List Spot) : Option (List Spot) :=
  let spots := skipWhile isBlank spots
  let spots := if startsWith '#' spots then skipWhile (fun c => !isBreak c) spots else spots
  match spots with
  | [] => some []
  | s :: rest => if isBreak s.char then some rest else none

end PointsTo.Yaml
