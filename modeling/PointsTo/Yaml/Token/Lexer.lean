import PointsTo.Yaml.Scalar.Block
import PointsTo.Yaml.Scalar.Plain
import PointsTo.Yaml.Scalar.Quoted
import PointsTo.Yaml.Token.Name

/-!
# From characters to tokens

Tokens are read one after another. That a node was the key of a mapping shows only at the colon
behind it, so the place of the last node that may be a key is kept, one for each pair of brackets
around it, and the token of the key is put in front of it later. Such a key stands on one line and
takes at most 1024 bytes. At the indentation of a mapping a key has to follow.

Outside brackets a token that is less indented than the collection around it closes the collection.

## Main definitions

* `Yaml.PendingKey`: the place of a node that may be a key
* `Yaml.Lexer`: the tokens so far and what is to be read
* `Yaml.Lexer.step?`: one token
* `Yaml.Token.scan?`: the tokens of a text
-/

namespace PointsTo.Yaml

/-- The place of a node that may be a key. -/
structure PendingKey where
  /-- The number of tokens in front of it. -/
  index : Nat
  /-- Its line. -/
  line : Nat
  /-- Its column. -/
  column : Nat
  /-- The number of bytes in front of it on its line. -/
  offset : Nat
  /-- Whether nothing but a key may stand there. -/
  required : Bool
deriving DecidableEq, Repr

/-- Whether the node is out of reach for a colon at the given place. -/
def PendingKey.isStale (k : PendingKey) (s : Spot) : Bool :=
  k.line < s.line || k.offset + 1024 < s.offset

/-- The tokens so far and what is to be read. -/
structure Lexer where
  /-- What is to be read. -/
  spots : List Spot
  /-- The tokens, newest first. -/
  tokens : List Token := []
  /-- The columns of the collections laid out by indentation, the innermost one first. -/
  indents : List Nat := []
  /-- The node that may be a key. -/
  pending : Option PendingKey := none
  /-- The nodes that may be keys outside each pair of brackets, the innermost pair first. -/
  outer : List (Option PendingKey) := []
  /-- Whether a key may begin here. -/
  keyAllowed : Bool := true
deriving DecidableEq, Repr

namespace Lexer

/-- Whether there are brackets around. -/
def inFlow (l : Lexer) : Bool := !l.outer.isEmpty

/-- Adds a token. -/
def emit (l : Lexer) (t : Token) : Lexer := { l with tokens := t :: l.tokens }

/-- Puts a token behind the first `index` ones. -/
def insert (l : Lexer) (index : Nat) (t : Token) : Lexer :=
  { l with tokens := l.tokens.insertIdx (l.tokens.length - index) t }

/-! ## Indentation -/

/-- Opens a collection at the given column, unless it is open or there are brackets around. Its
token goes behind the first `index` ones. -/
def indent (l : Lexer) (column index : Nat) (t : Token) : Lexer :=
  if l.inFlow || l.indents.any (column ≤ ·) then l
  else { l.insert index t with indents := column :: l.indents }

/-- Opens a collection at the given column, with its token behind all others. -/
def indentHere (l : Lexer) (column : Nat) (t : Token) : Lexer :=
  l.indent column l.tokens.length t

/-- Closes the collections for which a test holds, the innermost ones first. -/
def dedentWhile (p : Nat → Bool) (l : Lexer) : Lexer :=
  if l.inFlow then l
  else
    let closed := (l.indents.takeWhile p).map fun _ => Token.blockEnd
    { l with tokens := closed ++ l.tokens, indents := l.indents.dropWhile p }

/-- Closes the collections that are indented deeper than the given column. -/
def dedent (l : Lexer) (column : Nat) : Lexer := l.dedentWhile (column < ·)

/-- Closes all collections. -/
def dedentAll (l : Lexer) : Lexer := l.dedentWhile fun _ => true

/-! ## Keys -/

/-- Gives up the node that may be a key, unless it has to be one. -/
def forgetKey (l : Lexer) : Option Lexer :=
  match l.pending with
  | none => some l
  | some k => if k.required then none else some { l with pending := none }

/-- The node at the given place as a possible key. -/
def keyAt (l : Lexer) (s : Spot) : PendingKey where
  index := l.tokens.length
  line := s.line
  column := s.column
  offset := s.offset
  required := !l.inFlow && l.indents.head? == some s.column

/-- Notes that the node at the given place may be a key. -/
def noteKey (l : Lexer) (s : Spot) : Option Lexer :=
  if l.keyAllowed then l.forgetKey.map fun l => { l with pending := some (l.keyAt s) } else some l

/-- A node that may be a key, as it is seen from the given place: gone when it is out of reach, and
an error when it had to be one. -/
def reach (s : Spot) : Option PendingKey → Option (Option PendingKey)
  | none => some none
  | some k => if k.isStale s then (if k.required then none else some none) else some (some k)

/-- Gives up the nodes that are out of reach at the given place. -/
def forgetStale (l : Lexer) (s : Spot) : Option Lexer :=
  match reach s l.pending, l.outer.mapM (reach s) with
  | some pending, some outer => some { l with pending, outer }
  | _, _ => none

/-! ## Tokens -/

/-- A directive, from behind its sign. -/
def directive (l : Lexer) (rest : List Spot) : Option Lexer := do
  let l ← l.dedentAll.forgetKey
  let (t, spots) ← directive? rest
  return { l.emit t with spots, keyAllowed := false }

/-- The marker of a document. -/
def marker (l : Lexer) (t : Token) : Option Lexer := do
  let l ← l.dedentAll.forgetKey
  return { l.emit t with spots := l.spots.drop 3, keyAllowed := false }

/-- An opening bracket. -/
def openFlow (l : Lexer) (t : Token) (s : Spot) (rest : List Spot) : Option Lexer := do
  let l ← l.noteKey s
  return { l.emit t with
    spots := rest, pending := none, outer := l.pending :: l.outer, keyAllowed := true }

/-- A closing bracket. -/
def closeFlow (l : Lexer) (t : Token) (rest : List Spot) : Option Lexer := do
  let l ← l.forgetKey
  return { l.emit t with
    spots := rest, pending := l.outer.headD none, outer := l.outer.tail, keyAllowed := false }

/-- The comma between items in brackets. -/
def flowEntry (l : Lexer) (rest : List Spot) : Option Lexer := do
  let l ← l.forgetKey
  return { l.emit .flowEntry with spots := rest, keyAllowed := true }

/-- The sign of an item of a list. -/
def blockEntry (l : Lexer) (s : Spot) (rest : List Spot) : Option Lexer :=
  if !l.inFlow && !l.keyAllowed then none
  else do
    let l ← (l.indentHere s.column .blockSequenceStart).forgetKey
    return { l.emit .blockEntry with spots := rest, keyAllowed := true }

/-- The sign in front of a key. -/
def explicitKey (l : Lexer) (s : Spot) (rest : List Spot) : Option Lexer :=
  if !l.inFlow && !l.keyAllowed then none
  else do
    let l ← (l.indentHere s.column .blockMappingStart).forgetKey
    return { l.emit .key with spots := rest, keyAllowed := !l.inFlow }

/-- The colon in front of a value. -/
def value (l : Lexer) (s : Spot) (rest : List Spot) : Option Lexer :=
  match l.pending with
  | some k =>
    let l := (l.insert k.index .key).indent k.column k.index .blockMappingStart
    some { l.emit .value with spots := rest, pending := none, keyAllowed := false }
  | none =>
    if !l.inFlow && !l.keyAllowed then none
    else
      let l := l.indentHere s.column .blockMappingStart
      some { l.emit .value with spots := rest, keyAllowed := !l.inFlow }

/-- A token that may be or begin a key, once it was read. -/
def keyPart (l : Lexer) (s : Spot) (read : Option (Token × List Spot)) : Option Lexer := do
  let l ← l.noteKey s
  let (t, spots) ← read
  return { l.emit t with spots, keyAllowed := false }

/-- A block scalar, from behind its sign. -/
def block (l : Lexer) (style : Style) (rest : List Spot) : Option Lexer := do
  let l ← l.forgetKey
  let (text, spots) ← block? (style == .folded) l.indents.head? rest
  return { l.emit (.scalar style text) with spots, keyAllowed := true }

/-- A plain scalar. A key may follow it on a new line. -/
def plain (l : Lexer) (s : Spot) (rest : List Spot) : Option Lexer := do
  let l ← l.noteKey s
  let indent := (l.indents.head?.map (· + 1)).getD 0
  let (text, newLine, spots) ← plain? l.inFlow indent [] .none (s :: rest)
  return { l.emit (.scalar .plain text) with spots, keyAllowed := newLine }

/-- The token that begins with the given character. -/
def dispatch (l : Lexer) (s : Spot) (rest : List Spot) : Option Lexer :=
  match s.char with
  | '[' => l.openFlow .flowSequenceStart s rest
  | '\x7b' => l.openFlow .flowMappingStart s rest
  | ']' => l.closeFlow .flowSequenceEnd rest
  | '\x7d' => l.closeFlow .flowMappingEnd rest
  | ',' => l.flowEntry rest
  | '-' => if endsWord rest then l.blockEntry s rest else l.plain s rest
  | '?' => if l.inFlow || endsWord rest then l.explicitKey s rest else l.plain s rest
  | ':' => if l.inFlow || endsWord rest then l.value s rest else l.plain s rest
  | '*' => l.keyPart s ((name? rest).map fun (name, rest) => (.alias name, rest))
  | '&' => l.keyPart s ((name? rest).map fun (name, rest) => (.anchor name, rest))
  | '!' => l.keyPart s ((tag? l.inFlow rest).map fun (written, rest) => (.tag written, rest))
  | '|' => if l.inFlow then none else l.block .literal rest
  | '>' => if l.inFlow then none else l.block .folded rest
  | '\'' =>
    l.keyPart s ((singleQuoted? [] .none rest).map fun (text, rest) =>
      (.scalar .singleQuoted text, rest))
  | '"' =>
    l.keyPart s ((doubleQuoted? [] .none .outside rest).map fun (text, rest) =>
      (.scalar .doubleQuoted text, rest))
  | '%' | '@' | '\x60' | '\t' => none
  | _ => l.plain s rest

/-- **One token**, which begins with the given character. -/
def step? (l : Lexer) (s : Spot) (rest : List Spot) : Option Lexer := do
  let l ← l.forgetStale s
  let l := l.dedent s.column
  if s.column == 0 && s.char == '%' then l.directive rest
  else if startsLineWith '-' (s :: rest) then l.marker .documentStart
  else if startsLineWith '.' (s :: rest) then l.marker .documentEnd
  else l.dispatch s rest

/-- What follows spaces and comments, and whether a key may begin there. A line break outside
brackets allows a key; a tab counts as a blank only where none may begin. A byte order mark counts
as a blank at the beginning of a line, and takes a column there. -/
def skipSpaces (flow keyAllowed comment : Bool) : List Spot → Bool × List Spot
  | [] => (keyAllowed, [])
  | s :: rest =>
    if isBreak s.char then skipSpaces flow (keyAllowed || !flow) false rest
    else if s.isByteOrderMark then skipSpaces flow keyAllowed comment rest
    else if comment || s.char == ' ' || (s.char == '\t' && (flow || !keyAllowed)) then
      skipSpaces flow keyAllowed comment rest
    else if s.char == '#' then skipSpaces flow keyAllowed true rest
    else (keyAllowed, s :: rest)

/-- Moves to the next token. -/
def skip (l : Lexer) : Lexer :=
  let (keyAllowed, spots) := skipSpaces l.inFlow l.keyAllowed false l.spots
  { l with keyAllowed, spots }

/-- All tokens, in order. Each token takes a character at least, which bounds their number. -/
def run? : Nat → Lexer → Option (List Token)
  | 0, _ => none
  | fuel + 1, l =>
    let l := l.skip
    match l.spots with
    | [] => l.forgetKey.map fun l => l.dedentAll.tokens.reverse
    | s :: rest => (l.step? s rest).bind (run? fuel)

end Lexer

/-- **The tokens of a text.** -/
def Token.scan? (spots : List Spot) : Option (List Token) :=
  Lexer.run? (spots.length + 1) { spots }

end PointsTo.Yaml
