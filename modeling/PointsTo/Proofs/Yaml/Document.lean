import PointsTo.Proofs.Yaml.Layout
import PointsTo.Yaml.Document

/-!
# Documents laid out in lines

A mapping written with one entry a line is a document of its own: its tokens make up one node, and
the node has neither names nor tags to settle. So the document is the mapping of the written words.

## Main definitions

* `Yaml.plainScalar`, `Yaml.plainEntry`: words and entries of words as a document shows them

## Main results

* `Node.blockEntries?_flatMap`: the tokens of entries are read as these entries
* `Node.settleEntries?_map`: entries of words are settled as they are
* `Document.ofText?_layout`: the document of a mapping laid out in lines
-/

namespace PointsTo.Yaml

/-- A word as a scalar. -/
def plainScalar (word : List Char) : Scalar := { style := .plain, text := word }

/-- An entry as the document shows it. -/
def plainEntry (entry : List Char × List Char) : Content × Content :=
  (.scalar (plainScalar entry.1), .scalar (plainScalar entry.2))

variable {entries : List (List Char × List Char)}

namespace Node

/-- An entry as a pair of nodes. -/
def ofEntry (entry : List Char × List Char) : Node × Node :=
  (.scalar {} .plain entry.1, .scalar {} .plain entry.2)

theorem read?_scalar (block unindented : Bool) (fuel : Nat) (style : Style) (text : List Char)
    (rest : List Token) :
    read? block unindented (fuel + 1) (.scalar style text :: rest) =
      some (.scalar {} style text, rest) := by
  cases unindented with
  | false => simp [read?, properties]
  | true => simp [read?, properties]

theorem readUnless?_scalar {ends : List Token} {style : Style} {text : List Char}
    (hends : ends.contains (.scalar style text) = false) (block unindented : Bool) (fuel : Nat)
    (rest : List Token) :
    readUnless? ends block unindented (fuel + 2) (.scalar style text :: rest) =
      some (.scalar {} style text, rest) := by
  rw [readUnless?, omits, hends]
  exact read?_scalar block unindented fuel style text rest

/-- The tokens of an entry are read as this entry. -/
theorem blockEntries?_entryTokens (fuel : Nat) (entry : List Char × List Char)
    (rest : List Token) :
    blockEntries? (fuel + 4) (entryTokens entry ++ rest) =
      (blockEntries? (fuel + 3) rest).map fun (entries, rest) =>
        (ofEntry entry :: entries, rest) := by
  have hends (word : List Char) :
      [Token.key, .value, .blockEnd].contains (.scalar .plain word) = false := rfl
  rw [entryTokens, List.cons_append, blockEntries?]
  simp only [List.cons_append, List.nil_append, valueUnless?, readUnless?_scalar (hends _)]
  rfl

/-- The tokens of entries are read as these entries. -/
theorem blockEntries?_flatMap (fuel : Nat) (rest : List Token) :
    blockEntries? (entries.length + fuel + 3) (entries.flatMap entryTokens ++ .blockEnd :: rest) =
      some (entries.map ofEntry, rest) := by
  induction entries with
  | nil => simp [blockEntries?]
  | cons entry entries ih =>
    have hfuel : (entry :: entries).length + fuel + 3 = entries.length + fuel + 4 := by
      rw [List.length_cons]
      omega
    rw [hfuel, List.flatMap_cons, List.append_assoc, blockEntries?_entryTokens, ih]
    rfl

/-- A mapping is read with its entries. -/
theorem read?_blockMappingStart (unindented : Bool) (fuel : Nat) (rest : List Token) :
    read? true unindented (entries.length + fuel + 4)
        (.blockMappingStart :: (entries.flatMap entryTokens ++ .blockEnd :: rest)) =
      some (.mapping {} (entries.map ofEntry), rest) := by
  rw [read?]
  · change (blockEntries? (entries.length + fuel + 3) _).map _ = _
    rw [blockEntries?_flatMap]
    rfl
  · simp

/-- A scalar without a name and a tag is settled as it is. -/
theorem settle?_scalar (handles : Handles) (style : Style) (text : List Char) (a : Anchors) :
    settle? handles (.scalar {} style text) a = some (.content (.scalar { style, text }), a) := by
  rw [settle?]
  rfl

/-- Entries of words are settled as they are. -/
theorem settleEntries?_map (handles : Handles) (entries : List (List Char × List Char))
    (a : Anchors) :
    settleEntries? handles (entries.map ofEntry) a =
      some (entries.map fun entry =>
        (.content (plainEntry entry).1, .content (plainEntry entry).2), a) := by
  induction entries with
  | nil => rw [List.map_nil, settleEntries?, List.map_nil]
  | cons entry entries ih =>
    rw [List.map_cons, ofEntry, settleEntries?]
    simp only [settle?_scalar, ih]
    rfl

end Node

namespace Document

/-- Every reference is to a node itself, and there are no names to follow. -/
theorem ofNode?_mapping (handles : Handles) :
    ofNode? handles (.mapping {} (entries.map Node.ofEntry)) =
      some (.mapping (entries.map plainEntry)) := by
  have hsettle := Node.settleEntries?_map handles entries {}
  have hfollow := List.mapM_pure (m := Option) (l := entries) (f := plainEntry)
  change (Node.settleEntries? handles (entries.map Node.ofEntry) {}).bind _ = _
  rw [hsettle, Option.bind_some]
  change Option.bind (List.mapM _ _) _ = _
  rw [List.mapM_map]
  exact congrArg (fun found => Option.bind found fun entries => some (Document.mapping entries))
    hfollow

theorem ofTokens?_mapping :
    ofTokens? (.blockMappingStart :: (entries.flatMap entryTokens ++ [.blockEnd])) =
      some (.mapping (entries.map plainEntry)) := by
  have hlength : (entries.flatMap entryTokens).length = 4 * entries.length := by
    simp [List.length_flatMap, entryTokens, Nat.mul_comm]
  have hfuel :
      4 * (Token.blockMappingStart :: (entries.flatMap entryTokens ++ [.blockEnd])).length + 4 =
        entries.length + (15 * entries.length + 8) + 4 := by
    rw [List.length_cons, List.length_append, List.length_singleton, hlength]
    omega
  have hfirst : first? (.blockMappingStart :: (entries.flatMap entryTokens ++ [.blockEnd])) =
      some (usualHandles, .mapping {} (entries.map Node.ofEntry), []) := by
    rw [first?, hfuel, Node.read?_blockMappingStart]
    · rfl
    all_goals simp
  rw [ofTokens?, hfirst]
  exact ofNode?_mapping usualHandles

/-- **The document of a mapping laid out in lines** is the mapping of its words. -/
theorem ofText?_layout (hne : entries ≠ []) (h : ∀ e ∈ entries, SimpleEntry e) :
    ofText? (String.ofList (layout entries)) = some (.mapping (entries.map plainEntry)) := by
  rw [ofText?, Spot.ofText?_layout h, Option.bind_some, Token.scan?_layout hne h, Option.bind_some,
    ofTokens?_mapping]

end Document

end PointsTo.Yaml
