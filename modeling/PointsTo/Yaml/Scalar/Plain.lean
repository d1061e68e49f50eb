import PointsTo.Yaml.Scalar.Gap

/-!
# Plain scalars

A scalar without quotes goes on until a colon with a space behind it, a comment, a line that is not
indented, or, inside brackets, a character that parts the items.

## Main definitions

* `Yaml.plain?`: the text of a plain scalar and what follows it
-/

namespace PointsTo.Yaml

/-- Whether a line that is not indented, a marker or a comment follows the gap. -/
def stopsAfterGap (flow : Bool) (indent : Nat) (s : Spot) (rest : List Spot) : Bool :=
  (!flow && s.column < indent) || startsWithMarker (s :: rest) || s.char == '#'

/-- Whether the character ends a word for good. -/
def endsPlain (flow : Bool) (c : Char) (rest : List Spot) : Bool :=
  (c == ':' && endsWord rest) || (flow && isFlowMark c)

/-- Whether a colon inside brackets has a character behind it that may not stand there. -/
def isStrayColon (flow : Bool) (c : Char) (rest : List Spot) : Bool :=
  flow && c == ':' &&
    match rest with
    | [] => false
    | t :: _ => isFlowMark t.char || t.char == '?'

/-- **The text of a plain scalar**, whether a line break follows it, and what is left behind the
spaces after it. The text so far is given newest first. -/
def plain? (flow : Bool) (indent : Nat) (text : List Char) (gap : Gap) :
    List Spot → Option (List Char × Bool × List Spot)
  | [] => some (text.reverse, gap.hasBreak, [])
  | s :: rest =>
    if isSpace s.char then
      if gap.hasBreak && s.char == '\t' && s.column < indent then none
      else plain? flow indent text (gap.add s.char) rest
    else if !gap.isNone && stopsAfterGap flow indent s rest then
      some (text.reverse, gap.hasBreak, s :: rest)
    else if isStrayColon flow s.char rest then none
    else if endsPlain flow s.char rest then some (text.reverse, gap.hasBreak, s :: rest)
    else plain? flow indent (s.char :: (gap.text.reverse ++ text)) .none rest

end PointsTo.Yaml
