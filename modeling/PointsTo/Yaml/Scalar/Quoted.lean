import PointsTo.Digit
import PointsTo.Yaml.Scalar.Gap

/-!
# Scalars between quotes

Between single quotes a quote is written twice and all else stands for itself. Between double quotes
a backslash starts an escape, which names a character, gives its code, or hides a line break.

## Main definitions

* `Yaml.singleQuoted?`, `Yaml.doubleQuoted?`: the text up to the closing quote and what follows it
-/

namespace PointsTo.Yaml

/-- The text up to the closing single quote. The text so far is given newest first. -/
def singleQuoted? (text : List Char) (gap : Gap) : List Spot → Option (List Char × List Spot)
  | [] => none
  | s :: rest =>
    if isSpace s.char then singleQuoted? text (gap.add s.char) rest
    else if startsWithMarker (s :: rest) then none
    else
      let text := gap.text.reverse ++ text
      if s.char == '\'' then
        match rest with
        | [] => some (text.reverse, [])
        | t :: rest =>
          if t.char == '\'' then singleQuoted? ('\'' :: text) .none rest
          else some (text.reverse, t :: rest)
      else singleQuoted? (s.char :: text) .none rest

/-- The character that an escape of one letter names. -/
def namedEscape? (c : Char) : Option Char :=
  match c with
  | '0' => some '\x00'
  | 'a' => some '\x07'
  | 'b' => some '\x08'
  | 't' | '\t' => some '\t'
  | 'n' => some '\n'
  | 'v' => some '\x0b'
  | 'f' => some '\x0c'
  | 'r' => some '\r'
  | 'e' => some '\x1b'
  | ' ' => some ' '
  | '"' => some '"'
  | '/' => some '/'
  | '\\' => some '\\'
  | 'N' => some '\u0085'
  | '_' => some '\u00a0'
  | 'L' => some '\u2028'
  | 'P' => some '\u2029'
  | _ => none

/-- The number of digits of an escape by code. -/
def codeLength? (c : Char) : Option Nat :=
  match c with
  | 'x' => some 2
  | 'u' => some 4
  | 'U' => some 8
  | _ => none

/-- Where in an escape the reader is. -/
inductive Escape where
  /-- Outside of one. -/
  | outside
  /-- Behind the backslash. -/
  | begun
  /-- Before so many digits of a code, with the value of those read. -/
  | code (left value : Nat)
deriving DecidableEq, Repr

/-- The character of a code. -/
def charOfCode? (n : Nat) : Option Char := if n.isValidChar then some (Char.ofNat n) else none

/-- The text up to the closing double quote. The text so far is given newest first. -/
def doubleQuoted? (text : List Char) (gap : Gap) (escape : Escape) :
    List Spot → Option (List Char × List Spot)
  | [] => none
  | s :: rest =>
    match escape with
    | .outside =>
      if isSpace s.char then doubleQuoted? text (gap.add s.char) .outside rest
      else if startsWithMarker (s :: rest) then none
      else
        let text := gap.text.reverse ++ text
        if s.char == '"' then some (text.reverse, rest)
        else if s.char == '\\' then doubleQuoted? text .none .begun rest
        else doubleQuoted? (s.char :: text) .none .outside rest
    | .begun =>
      if isBreak s.char then doubleQuoted? text (.breaks [] []) .outside rest
      else
        match namedEscape? s.char, codeLength? s.char with
        | some c, _ => doubleQuoted? (c :: text) .none .outside rest
        | none, some left => doubleQuoted? text .none (.code left 0) rest
        | none, none => none
    | .code left value =>
      match hexDigit? s.char with
      | none => none
      | some digit =>
        let value := value * 16 + digit
        if left ≤ 1 then
          match charOfCode? value with
          | none => none
          | some c => doubleQuoted? (c :: text) .none .outside rest
        else doubleQuoted? text .none (.code (left - 1) value) rest

end PointsTo.Yaml
