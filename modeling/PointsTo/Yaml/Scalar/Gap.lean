import PointsTo.Yaml.Spot

/-!
# Gaps between words

A scalar that is plain or between quotes may go over several lines. Blanks between two words of one
line stay; a gap with one line break counts as a blank, a gap with more of them as the others.

## Main definitions

* `Yaml.Gap`: the spaces since the last word
* `Yaml.Gap.text`: what they count as
-/

namespace PointsTo.Yaml

/-- The spaces since the last word. -/
inductive Gap where
  /-- No space. -/
  | none
  /-- Blanks, newest first. -/
  | blanks (seen : List Char)
  /-- The first line break, empty if it was escaped, and the others, newest first. -/
  | breaks (first more : List Char)
deriving DecidableEq, Repr

namespace Gap

/-- Adds a space. Blanks around a line break are dropped. -/
def add (c : Char) : Gap → Gap
  | none => if isBlank c then blanks [c] else breaks [c] []
  | blanks seen => if isBlank c then blanks (c :: seen) else breaks [c] []
  | breaks first more => if isBlank c then breaks first more else breaks first (c :: more)

/-- Whether there is no space. -/
def isNone : Gap → Bool
  | none => true
  | _ => false

/-- Whether there is a line break. -/
def hasBreak : Gap → Bool
  | breaks .. => true
  | _ => false

/-- **What the gap counts as.** -/
def text : Gap → List Char
  | none => []
  | blanks seen => seen.reverse
  | breaks first more =>
    if first = ['\n'] then
      if more.isEmpty then [' '] else more.reverse
    else first ++ more.reverse

end Gap

end PointsTo.Yaml
