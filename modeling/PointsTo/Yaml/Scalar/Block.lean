import PointsTo.Yaml.Spot

/-!
# Block scalars

A scalar written as an indented block. Its header tells what happens to the line breaks at the end
and how deep it is indented; otherwise its first line tells the depth. In a folded block the break
between two lines of text counts as a blank.

## Main definitions

* `Yaml.Chomp`, `Yaml.blockHeader?`: the header
* `Yaml.Block`, `Yaml.blockLines?`: the lines
* `Yaml.block?`: the text of a block scalar and what follows it
-/

namespace PointsTo.Yaml

/-- What happens to the line breaks at the end. -/
inductive Chomp where
  /-- All are dropped. -/
  | strip
  /-- The first one stays. -/
  | clip
  /-- All stay. -/
  | keep
deriving DecidableEq, Repr

/-- The sign for the line breaks at the end, if there is one. -/
def chomp (spots : List Spot) : Option Chomp × List Spot :=
  match spots with
  | [] => (none, [])
  | s :: rest =>
    if s.char == '+' then (some .keep, rest)
    else if s.char == '-' then (some .strip, rest)
    else (none, spots)

/-- The depth, if it is given; zero is none. -/
def depth? (spots : List Spot) : Option (Option Nat × List Spot) :=
  match spots with
  | [] => some (none, [])
  | s :: rest =>
    if s.char == '0' then none
    else if s.char.isDigit then some (some (s.char.toNat - 48), rest)
    else some (none, spots)

/-- The header of a block: sign and depth in either order, then the end of the line. -/
def blockHeader? (spots : List Spot) : Option (Chomp × Option Nat × List Spot) := do
  let (before, spots) := chomp spots
  let (depth, spots) ← depth? spots
  let (sign, spots) := if before.isSome then (before, spots) else chomp spots
  let spots ← restOfLine? spots
  return (sign.getD .clip, depth, spots)

/-- The empty lines in front of a block whose depth is not given: the greatest column reached, their
line breaks, newest first, and what follows the indentation of the first line of text. -/
def emptyLines? (deepest : Nat) (breaks : List Char) :
    List Spot → Option (Nat × List Char × List Spot)
  | [] => some (deepest, breaks, [])
  | s :: rest =>
    if s.char == ' ' then emptyLines? deepest breaks rest
    else if s.char == '\t' then none
    else if isBreak s.char then emptyLines? (max deepest s.column) (s.char :: breaks) rest
    else some (max deepest s.column, breaks, s :: rest)

/-- The lines of a block so far. -/
structure Block where
  /-- The text, newest first. -/
  text : List Char := []
  /-- The break behind the last line of text. -/
  lineBreak : List Char := []
  /-- The breaks of the empty lines since then, newest first. -/
  breaks : List Char := []
  /-- Whether the last line of text began with a blank. -/
  indented : Bool := false
deriving DecidableEq, Repr

namespace Block

/-- Begins a line of text with the given character. -/
def beginLine (folded : Bool) (b : Block) (c : Char) : Block :=
  let joint :=
    if folded && b.lineBreak == ['\n'] && !b.indented && !isBlank c then
      if b.breaks.isEmpty then [' '] else []
    else b.lineBreak
  { text := c :: (b.breaks ++ (joint ++ b.text)), indented := isBlank c }

/-- The text with the line breaks that stay. -/
def finish (b : Block) : Chomp → List Char
  | .strip => b.text.reverse
  | .clip => (b.lineBreak ++ b.text).reverse
  | .keep => (b.breaks ++ (b.lineBreak ++ b.text)).reverse

end Block

/-- The lines that are indented to the given depth. -/
def blockLines? (folded : Bool) (indent : Nat) (b : Block) (inLine : Bool) :
    List Spot → Option (Block × List Spot)
  | [] => some (b, [])
  | s :: rest =>
    if inLine then
      if isBreak s.char then
        blockLines? folded indent { b with lineBreak := [s.char] } false rest
      else blockLines? folded indent { b with text := s.char :: b.text } true rest
    else if s.column < indent && s.char == ' ' then blockLines? folded indent b false rest
    else if s.column < indent && s.char == '\t' then none
    else if isBreak s.char then
      blockLines? folded indent { b with breaks := s.char :: b.breaks } false rest
    else if s.column == indent then blockLines? folded indent (b.beginLine folded s.char) true rest
    else some (b, s :: rest)

/-- **The text of a block scalar** inside a collection of the given indentation, and what follows
it. -/
def block? (folded : Bool) (outer : Option Nat) (spots : List Spot) :
    Option (List Char × List Spot) := do
  let (sign, depth, spots) ← blockHeader? spots
  let (indent, breaks, spots) ← match depth with
    | some n => some (outer.getD 0 + n, [], spots)
    | none => do
      let (deepest, breaks, spots) ← emptyLines? 0 [] spots
      some (max deepest (max 1 ((outer.map (· + 1)).getD 0)), breaks, spots)
  let (b, spots) ← blockLines? folded indent { breaks } false spots
  return (b.finish sign, spots)

end PointsTo.Yaml
