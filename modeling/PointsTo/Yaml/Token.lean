/-!
# Tokens

A YAML text is a list of tokens. Indentation is made explicit: a collection that is laid out by
indentation is opened by a token of its own and closed by `blockEnd`.

## Main definitions

* `Yaml.Token`: the tokens
* `Yaml.Style`: the ways to write a scalar
* `Yaml.WrittenTag`: a tag as written
-/

namespace PointsTo.Yaml

/-- How a scalar is written. -/
inductive Style where
  /-- Without quotes. -/
  | plain
  /-- Between single quotes. -/
  | singleQuoted
  /-- Between double quotes. -/
  | doubleQuoted
  /-- As an indented block whose line breaks stay. -/
  | literal
  /-- As an indented block whose line breaks are folded. -/
  | folded
deriving DecidableEq, Repr

/-- A tag as written: a handle that stands for a declared text, and what follows it, in bytes. The
empty handle stands for nothing. -/
structure WrittenTag where
  /-- The handle. -/
  handle : List Char
  /-- What follows it. -/
  suffix : List UInt8
deriving DecidableEq, Repr

/-- A token of a text. -/
inductive Token where
  /-- The version of the language. -/
  | version (major minor : Nat)
  /-- The text that a handle stands for. -/
  | tagHandle (handle : List Char) (stem : List UInt8)
  | documentStart
  | documentEnd
  | blockSequenceStart
  | blockMappingStart
  | blockEnd
  | flowSequenceStart
  | flowSequenceEnd
  | flowMappingStart
  | flowMappingEnd
  | blockEntry
  | flowEntry
  | key
  | value
  /-- A node told by the name of another one. -/
  | alias (name : List Char)
  /-- The name of the node that follows. -/
  | anchor (name : List Char)
  /-- The tag of the node that follows. -/
  | tag (written : WrittenTag)
  | scalar (style : Style) (text : List Char)
deriving DecidableEq, Repr

end PointsTo.Yaml
