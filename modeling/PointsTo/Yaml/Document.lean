import PointsTo.Yaml.Node
import PointsTo.Yaml.Spot
import PointsTo.Yaml.Token.Lexer

/-!
# Documents

A text holds at most one document. What is wanted of it is its top level: a scalar, or a mapping of
which each key and value is a scalar or a collection that is not looked into. Names and tags are
settled on the way: an alias has to name a node in front of it, and a handle has to be declared.

Named nodes are numbered. A node gets as its number how many names there were before; so a name that
is given again does not count twice, and the next new name takes over its number.

## Main definitions

* `Yaml.Scalar`, `Yaml.Content`: nodes with their tags settled
* `Yaml.Anchors`: the named nodes
* `Yaml.Document`: the top level of a document
* `Yaml.Document.ofText?`: the document in a text
-/

namespace PointsTo.Yaml

/-- A scalar with its tag, in bytes. -/
structure Scalar where
  /-- The tag. -/
  tag : Option (List UInt8) := none
  /-- How it is written. -/
  style : Style
  /-- What it says. -/
  text : List Char
deriving DecidableEq, Repr

/-- What a node is, from outside. -/
inductive Content where
  | scalar (s : Scalar)
  | collection
deriving DecidableEq, Repr

/-- A node, or the number of a named one. -/
inductive Reference where
  | content (c : Content)
  | named (number : Nat)
deriving DecidableEq, Repr

/-! ## Tags -/

/-- The texts that handles stand for. -/
abbrev Handles := List (List Char × List UInt8)

/-- The handles that need not be declared. -/
def usualHandles : Handles :=
  [(['!'], "!".toUTF8.toList), (['!', '!'], "tag:yaml.org,2002:".toUTF8.toList)]

/-- The tag in bytes; none of a handle that is not declared. -/
def WrittenTag.resolve? (handles : Handles) (t : WrittenTag) : Option (List UInt8) :=
  if t.handle.isEmpty then some t.suffix
  else (handles.lookup t.handle).map (· ++ t.suffix)

/-- The tag of a node in bytes, if it has one. -/
def Properties.resolve? (handles : Handles) (p : Properties) : Option (Option (List UInt8)) :=
  match p.tag with
  | none => some none
  | some t => (t.resolve? handles).map some

/-! ## Names -/

/-- The named nodes so far. -/
structure Anchors where
  /-- The number of each name. -/
  numbers : List (List Char × Nat) := []
  /-- What each number stands for; of several entries the first one counts. -/
  contents : List (Nat × Content) := []
deriving DecidableEq, Repr

namespace Anchors

/-- Notes a node, if it has a name. -/
def note (a : Anchors) (name : Option (List Char)) (c : Content) : Anchors :=
  match name with
  | none => a
  | some name =>
    let number := a.numbers.length
    { numbers := (name, number) :: a.numbers.filter (·.1 ≠ name)
      contents := (number, c) :: a.contents }

/-- What a reference stands for, once all nodes are noted. -/
def follow? (a : Anchors) : Reference → Option Content
  | .content c => some c
  | .named number => a.contents.lookup number

end Anchors

mutual

/-- Settles names and tags of a node. -/
def Node.settle? (handles : Handles) : Node → Anchors → Option (Reference × Anchors)
  | .alias name, a => (a.numbers.lookup name).map fun number => (.named number, a)
  | .scalar p style text, a =>
    (p.resolve? handles).map fun tag =>
      let c := Content.scalar { tag, style, text }
      (.content c, a.note p.anchor c)
  | .sequence p items, a =>
    match p.resolve? handles with
    | none => none
    | some _ =>
      (settleItems? handles items (a.note p.anchor .collection)).map fun a =>
        (.content .collection, a)
  | .mapping p entries, a =>
    match p.resolve? handles with
    | none => none
    | some _ =>
      (settleEntries? handles entries (a.note p.anchor .collection)).map fun (_, a) =>
        (.content .collection, a)

/-- Settles names and tags of the items of a sequence, in order. -/
def Node.settleItems? (handles : Handles) : List Node → Anchors → Option Anchors
  | [], a => some a
  | item :: items, a =>
    match settle? handles item a with
    | none => none
    | some (_, a) => settleItems? handles items a

/-- Settles names and tags of the entries of a mapping, in order, each key before its value. -/
def Node.settleEntries? (handles : Handles) :
    List (Node × Node) → Anchors → Option (List (Reference × Reference) × Anchors)
  | [], a => some ([], a)
  | (key, value) :: entries, a =>
    match settle? handles key a with
    | none => none
    | some (key, a) =>
      match settle? handles value a with
      | none => none
      | some (value, a) =>
        (settleEntries? handles entries a).map fun (refs, a) => ((key, value) :: refs, a)

end

/-! ## Documents -/

/-- The top level of a document. -/
inductive Document where
  /-- No document at all. -/
  | empty
  | scalar (s : Scalar)
  | sequence
  | mapping (entries : List (Content × Content))
deriving DecidableEq, Repr

namespace Document

/-- The document with the given node at its top. -/
def ofNode? (handles : Handles) (n : Node) : Option Document :=
  match n with
  | .mapping p entries => do
    let _ ← p.resolve? handles
    let (refs, a) ← Node.settleEntries? handles entries (Anchors.note {} p.anchor .collection)
    let entries ← refs.mapM fun (key, value) => do return (← a.follow? key, ← a.follow? value)
    return .mapping entries
  | _ =>
    match n.settle? handles {} with
    | some (.content (.scalar s), _) => some (.scalar s)
    | some (.content .collection, _) => some .sequence
    | _ => none

/-- The directives in front of a document: one version at most, and each handle once. -/
def directives? (version : Bool) (handles : Handles) : List Token → Option (Handles × List Token)
  | .version major minor :: rest =>
    if version || major ≠ 1 || (minor ≠ 1 && minor ≠ 2) then none
    else directives? true handles rest
  | .tagHandle handle stem :: rest =>
    if (handles.lookup handle).isSome then none
    else directives? version ((handle, stem) :: handles) rest
  | tokens => some (handles ++ usualHandles, tokens)

/-- Whether the token may follow an empty document. -/
def followsEmpty : Token → Bool
  | .version .. | .tagHandle .. | .documentStart | .documentEnd => true
  | _ => false

/-- The node at the top of a document behind its marker. -/
def content? (tokens : List Token) : Option (Node × List Token) :=
  match tokens with
  | [] => some (.missing, [])
  | t :: _ =>
    if followsEmpty t then some (.missing, tokens)
    else Node.read? true false (4 * tokens.length + 4) tokens

/-- The node at the top of the first document, the handles declared for it, and the tokens behind
it. -/
def first? (tokens : List Token) : Option (Handles × Node × List Token) :=
  match tokens with
  | .version .. :: _ | .tagHandle .. :: _ | .documentStart :: _ =>
    match directives? false [] tokens with
    | some (handles, .documentStart :: rest) =>
      (content? rest).map fun (n, rest) => (handles, n, rest)
    | _ => none
  | _ =>
    (Node.read? true false (4 * tokens.length + 4) tokens).map fun (n, rest) =>
      (usualHandles, n, rest)

/-- The document that tokens make up. Nothing but marks of its end may follow it. -/
def ofTokens? (tokens : List Token) : Option Document :=
  if tokens.isEmpty then some .empty
  else
    match first? tokens with
    | none => none
    | some (handles, n, rest) =>
      if rest.all (· == .documentEnd) then ofNode? handles n else none

/-- **The document in a text.** -/
def ofText? (text : String) : Option Document :=
  ((Spot.ofText? text).bind Token.scan?).bind ofTokens?

end Document

end PointsTo.Yaml
