import PointsTo.Json.Records
import PointsTo.Snapshot.Basic

/-!
# Snapshots as texts

A snapshot is described in a few lines, and written to and read from JSON. In JSON its tables are
objects whose keys are the identifiers in decimal; when a key stands twice, its last entry counts.
The entries of a table and the members of a class have no order of their own, so a snapshot has as
many texts as there are orders to list them in.

## Main definitions

* `Snapshot.describe`: the figures in a few lines
* `Snapshot.Arrangement`, `Snapshot.Arrangement.Of`: the parts of a snapshot in some order
* `Snapshot.Arrangement.toText`: the text that lists them in this order
* `Snapshot.toText`: the text in ascending order
* `Snapshot.ofText?`: reading
-/

namespace PointsTo

namespace Snapshot

/-- The figures in a few lines; the average has two places. -/
def describe (g : Snapshot) : String :=
  "PointsToGraph (" ++ g.kind.label ++ ") \x7b\n"
    ++ s!"  nodes: {g.stats.totalNodes}\n"
    ++ s!"  classes: {g.stats.equivalenceClasses}\n"
    ++ s!"  edges: {g.stats.totalEdges}\n"
    ++ "  avg_pts_size: " ++ Decimal.fixed 2 g.stats.avgPointsToSize ++ "\n\x7d\n"

/-! ## Writing -/

/-- A table with identifiers as keys, its entries in the order given. -/
def entriesToJson {α : Type} (f : α → Json) (entries : List (NodeId × α)) : Json :=
  .object (entries.map fun (key, value) => (Nat.toDigits 10 key, f value))

/-- The names of the figures in texts, in their order. -/
def statsNames : List String :=
  ["total_nodes", "equivalence_classes", "merged_nodes", "total_edges", "max_points_to_size",
    "avg_points_to_size"]

def statsToJson (s : SnapshotStats) : Json :=
  .ofMembers (statsNames.zip
    [.ofNat s.totalNodes, .ofNat s.equivalenceClasses, .ofNat s.mergedNodes, .ofNat s.totalEdges,
      .ofNat s.maxPointsToSize, .number (.ofFloat s.avgPointsToSize)])

/-- The names of the parts of a snapshot in texts, in their order. -/
def partNames : List String := ["kind", "points_to", "rep_map", "sub_nodes", "stats"]

/-- The parts of a snapshot, with the entries of its tables and the members of its classes in some
order. -/
structure Arrangement where
  /-- The sort of analysis. -/
  kind : AnalysisKind
  /-- The sets by representative. -/
  sets : List (NodeId × IdSet)
  /-- The representatives of nodes merged away. -/
  representatives : List (NodeId × NodeId)
  /-- The members of the classes, by representative. -/
  classes : List (NodeId × List NodeId)
  /-- The figures. -/
  stats : SnapshotStats

namespace Arrangement

def toJson (a : Arrangement) : Json :=
  .ofMembers (partNames.zip
    [a.kind.toJson, entriesToJson IdSet.toJson a.sets, entriesToJson .ofNat a.representatives,
      entriesToJson .ofNats a.classes, statsToJson a.stats])

/-- **The text that lists the parts in this order.** -/
def toText (a : Arrangement) : String := a.toJson.pretty

/-- **The arrangement is one of the snapshot**: every entry and every member is listed once. -/
structure Of (a : Arrangement) (g : Snapshot) : Prop where
  kind : a.kind = g.kind
  sets : a.sets.Perm g.sets.toList
  representatives : a.representatives.Perm g.representatives.toList
  classes : (a.classes.map Prod.fst).Perm g.classes.keys
  members : ∀ entry ∈ a.classes, ∃ members, g.classes[entry.1]? = some members ∧
    entry.2.Perm members.toList
  stats : a.stats = g.stats

end Arrangement

/-- The snapshot with all in ascending order. -/
def inOrder (g : Snapshot) : Arrangement where
  kind := g.kind
  sets := g.sets.toList
  representatives := g.representatives.toList
  classes := g.classes.toList.map fun entry => (entry.1, entry.2.toList)
  stats := g.stats

/-- **The snapshot as a text** in ascending order. -/
def toText (g : Snapshot) : String := g.inOrder.toText

/-! ## Reading -/

/-- The table of the entries; of those with one key the last one counts. -/
def tableOfList {α : Type} (entries : List (NodeId × α)) : Std.ExtTreeMap NodeId α :=
  entries.foldl (fun table entry => table.insert entry.1 entry.2) ∅

def statsOfJson? (j : Json) : Option SnapshotStats :=
  match j.fields? statsNames with
  | some [nodes, classes, merged, edges, largest, average] => do
    let totalNodes ← Json.required Json.count? nodes
    let equivalenceClasses ← Json.required Json.count? classes
    let mergedNodes ← Json.required Json.count? merged
    let totalEdges ← Json.required Json.count? edges
    let maxPointsToSize ← Json.required Json.count? largest
    let avgPointsToSize ← Json.required Json.float? average
    return { totalNodes, equivalenceClasses, mergedNodes, totalEdges, maxPointsToSize,
             avgPointsToSize }
  | _ => none

def ofJson? (j : Json) : Option Snapshot :=
  match j.fields? partNames with
  | some [kind, sets, representatives, classes, stats] => do
    let kind ← Json.required AnalysisKind.ofJson? kind
    let sets ← Json.required (Json.idTable? IdSet.ofJson?) sets
    let representatives ← Json.required (Json.idTable? Json.id?) representatives
    let classes ← Json.required (Json.idTable? Json.ids?) classes
    let stats ← Json.required statsOfJson? stats
    return { kind, sets := tableOfList sets, representatives := tableOfList representatives,
             classes := tableOfList (classes.map fun entry => (entry.1, .ofList entry.2)), stats }
  | _ => none

/-- **The snapshot that a text writes.** -/
def ofText? (text : String) : Option Snapshot := (Json.parse? text).bind ofJson?

end Snapshot

end PointsTo
