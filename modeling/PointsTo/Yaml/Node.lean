import PointsTo.Yaml.Token

/-!
# Nodes

Tokens make up nodes: scalars, sequences and mappings, each of which may have a name and a tag, and
aliases, which stand for a named node. Where a node may be left out, an empty plain scalar stands in
its place.

## Main definitions

* `Yaml.Node`: the nodes
* `Yaml.Node.read?`: the node that tokens begin with
-/

namespace PointsTo.Yaml

/-- What may stand in front of a node. -/
structure Properties where
  /-- Its name. -/
  anchor : Option (List Char) := none
  /-- Its tag. -/
  tag : Option WrittenTag := none
deriving DecidableEq, Repr

/-- A node as written. -/
inductive Node where
  | alias (name : List Char)
  | scalar (p : Properties) (style : Style) (text : List Char)
  | sequence (p : Properties) (items : List Node)
  | mapping (p : Properties) (entries : List (Node × Node))
deriving Repr, Inhabited

namespace Node

/-- The node in the place of one left out. -/
def missing : Node := .scalar {} .plain []

/-- Name and tag, in either order. -/
def properties : List Token → Properties × List Token
  | .anchor name :: .tag written :: rest => ({ anchor := some name, tag := some written }, rest)
  | .tag written :: .anchor name :: rest => ({ anchor := some name, tag := some written }, rest)
  | .anchor name :: rest => ({ anchor := some name }, rest)
  | .tag written :: rest => ({ tag := some written }, rest)
  | tokens => ({}, tokens)

/-- Whether the next token is one of the given ones, so that a node is left out here. -/
def omits (ends : List Token) (tokens : List Token) : Bool :=
  match tokens with
  | [] => false
  | t :: _ => ends.contains t

/-- Behind the first item in brackets a comma stands before each other one. -/
def comma? (first : Bool) (tokens : List Token) : Option (List Token) :=
  match first, tokens with
  | true, tokens => some tokens
  | false, .flowEntry :: rest => some rest
  | false, _ => none

mutual

/-- **The node that tokens begin with**, and the tokens behind it. Inside brackets no collection is
laid out by indentation; a list that is the value of a mapping need not be indented. -/
def read? (block unindented : Bool) : Nat → List Token → Option (Node × List Token)
  | 0, _ => none
  | fuel + 1, tokens =>
    match tokens with
    | .alias name :: rest => some (.alias name, rest)
    | _ =>
      let (p, tokens) := properties tokens
      match tokens, block, unindented with
      | .blockEntry :: _, _, true =>
        (unindentedItems? fuel tokens).map fun (items, rest) => (.sequence p items, rest)
      | .scalar style text :: rest, _, _ => some (.scalar p style text, rest)
      | .flowSequenceStart :: rest, _, _ =>
        (flowItems? true fuel rest).map fun (items, rest) => (.sequence p items, rest)
      | .flowMappingStart :: rest, _, _ =>
        (flowEntries? true fuel rest).map fun (entries, rest) => (.mapping p entries, rest)
      | .blockSequenceStart :: rest, true, _ =>
        (blockItems? fuel rest).map fun (items, rest) => (.sequence p items, rest)
      | .blockMappingStart :: rest, true, _ =>
        (blockEntries? fuel rest).map fun (entries, rest) => (.mapping p entries, rest)
      | tokens, _, _ => if p = {} then none else some (.scalar p .plain [], tokens)

/-- The node that tokens begin with, or the one in its place when a token follows that shows it to
be left out. -/
def readUnless? (ends : List Token) (block unindented : Bool) :
    Nat → List Token → Option (Node × List Token)
  | 0, _ => none
  | fuel + 1, tokens =>
    if omits ends tokens then some (missing, tokens) else read? block unindented fuel tokens

/-- The value behind a key: none without a colon. -/
def valueUnless? (ends : List Token) (block unindented : Bool) :
    Nat → List Token → Option (Node × List Token)
  | 0, _ => none
  | fuel + 1, tokens =>
    match tokens with
    | .value :: rest => readUnless? ends block unindented fuel rest
    | _ => some (missing, tokens)

/-- The items of an indented list. -/
def blockItems? : Nat → List Token → Option (List Node × List Token)
  | 0, _ => none
  | fuel + 1, tokens =>
    match tokens with
    | .blockEntry :: rest =>
      match readUnless? [.blockEntry, .blockEnd] true false fuel rest with
      | none => none
      | some (item, rest) => (blockItems? fuel rest).map fun (items, rest) => (item :: items, rest)
    | .blockEnd :: rest => some ([], rest)
    | _ => none

/-- The items of a list that is not indented. -/
def unindentedItems? : Nat → List Token → Option (List Node × List Token)
  | 0, _ => none
  | fuel + 1, tokens =>
    match tokens with
    | .blockEntry :: rest =>
      match readUnless? [.blockEntry, .key, .value, .blockEnd] true false fuel rest with
      | none => none
      | some (item, rest) =>
        (unindentedItems? fuel rest).map fun (items, rest) => (item :: items, rest)
    | _ => some ([], tokens)

/-- The entries of an indented mapping. -/
def blockEntries? : Nat → List Token → Option (List (Node × Node) × List Token)
  | 0, _ => none
  | fuel + 1, tokens =>
    match tokens with
    | .key :: rest =>
      match readUnless? [.key, .value, .blockEnd] true true fuel rest with
      | none => none
      | some (key, rest) =>
        match valueUnless? [.key, .value, .blockEnd] true true fuel rest with
        | none => none
        | some (value, rest) =>
          (blockEntries? fuel rest).map fun (entries, rest) => ((key, value) :: entries, rest)
    | .blockEnd :: rest => some ([], rest)
    | _ => none

/-- The items of a list in brackets, up to the closing one. An entry of a mapping may stand among
them. -/
def flowItems? (first : Bool) : Nat → List Token → Option (List Node × List Token)
  | 0, _ => none
  | fuel + 1, tokens =>
    match tokens with
    | .flowSequenceEnd :: rest => some ([], rest)
    | _ =>
      match comma? first tokens with
      | none => none
      | some (.flowSequenceEnd :: rest) => some ([], rest)
      | some tokens =>
        match flowItem? fuel tokens with
        | none => none
        | some (item, rest) =>
          (flowItems? false fuel rest).map fun (items, rest) => (item :: items, rest)

/-- An item of a list in brackets. When the key of an entry is left out, the token that shows it is
taken for the key. -/
def flowItem? : Nat → List Token → Option (Node × List Token)
  | 0, _ => none
  | fuel + 1, tokens =>
    match tokens with
    | .key :: rest =>
      let key :=
        if omits [.value, .flowEntry, .flowSequenceEnd] rest then some (missing, rest.drop 1)
        else read? false false fuel rest
      match key with
      | none => none
      | some (key, rest) =>
        (valueUnless? [.flowEntry, .flowSequenceEnd] false false fuel rest).map
          fun (value, rest) => (.mapping {} [(key, value)], rest)
    | _ => read? false false fuel tokens

/-- The entries of a mapping in brackets, up to the closing one. -/
def flowEntries? (first : Bool) : Nat → List Token → Option (List (Node × Node) × List Token)
  | 0, _ => none
  | fuel + 1, tokens =>
    match tokens with
    | .flowMappingEnd :: rest => some ([], rest)
    | _ =>
      match comma? first tokens with
      | none => none
      | some (.flowMappingEnd :: rest) => some ([], rest)
      | some tokens =>
        match flowPair? fuel tokens with
        | none => none
        | some (entry, rest) =>
          (flowEntries? false fuel rest).map fun (entries, rest) => (entry :: entries, rest)

/-- An entry of a mapping in brackets. A node alone is a key without a value. -/
def flowPair? : Nat → List Token → Option ((Node × Node) × List Token)
  | 0, _ => none
  | fuel + 1, tokens =>
    match tokens with
    | .key :: rest =>
      match readUnless? [.value, .flowEntry, .flowMappingEnd] false false fuel rest with
      | none => none
      | some (key, rest) =>
        (valueUnless? [.flowEntry, .flowMappingEnd] false false fuel rest).map
          fun (value, rest) => ((key, value), rest)
    | _ => (read? false false fuel tokens).map fun (key, rest) => ((key, missing), rest)

end

end Node

end PointsTo.Yaml
