import PointsTo.Solver.State

/-!
# Snapshots

A snapshot is the frozen result of an analysis: the points-to sets of the representatives, the
representative of every node merged away, and the members of each class. It answers questions about
aliases without the solver. A snapshot read from a text is taken as it stands, so a question is
answered from what is listed and in one look-up.

## Main definitions

* `Snapshot`: the frozen result, with its statistics
* `Solver.freeze`: the snapshot of a solver
* `Snapshot.representative`, `Snapshot.set?`, `Snapshot.members`: reading a snapshot
* `Snapshot.mayAlias`, `Snapshot.mustAlias`: the alias questions
-/

namespace PointsTo

/-- Figures about a snapshot. -/
structure SnapshotStats where
  /-- The number of nodes. -/
  totalNodes : Nat := 0
  /-- The number of classes. -/
  equivalenceClasses : Nat := 0
  /-- The number of nodes merged away. -/
  mergedNodes : Nat := 0
  /-- The sizes of all sets together. -/
  totalEdges : Nat := 0
  /-- The size of the greatest set. -/
  maxPointsToSize : Nat := 0
  /-- The average size of a set. -/
  avgPointsToSize : Float := 0

/-- The frozen result of an analysis. -/
structure Snapshot where
  /-- The sort of analysis. -/
  kind : AnalysisKind := .steensgaard
  /-- The sets by representative. -/
  sets : Std.ExtTreeMap NodeId IdSet := ∅
  /-- The representative of each node merged away. -/
  representatives : Std.ExtTreeMap NodeId NodeId := ∅
  /-- The members of each class, by representative. -/
  classes : Std.ExtTreeMap NodeId IdSet := ∅
  /-- The figures. -/
  stats : SnapshotStats := {}

namespace Snapshot

/-- The representative of a node, as listed. -/
def representative (g : Snapshot) (n : NodeId) : NodeId := g.representatives.getD n n

/-- The set listed for the representative of a node. -/
def set? (g : Snapshot) (n : NodeId) : Option IdSet := g.sets[g.representative n]?

/-- The objects that a node may point to, as listed. -/
def pointsTo (g : Snapshot) (n : NodeId) : List NodeId := ((g.set? n).getD ∅).toList

/-- The number of objects listed for a node. -/
def size (g : Snapshot) (n : NodeId) : Nat := ((g.set? n).getD ∅).size

/-- Whether a node may point to an object. -/
def contains (g : Snapshot) (n o : NodeId) : Bool := ((g.set? n).getD ∅).contains o

/-- The members of the class of a node. -/
def members (g : Snapshot) (n : NodeId) : IdSet :=
  g.classes.getD (g.representative n) (.singleton (g.representative n))

/-- The representatives for which a set is listed. -/
def keys (g : Snapshot) : List NodeId := g.sets.keys

/-- **May two nodes point to the same object?** Nodes of one class may. -/
def mayAlias (g : Snapshot) (a b : NodeId) : Bool :=
  if g.representative a = g.representative b then true
  else
    match g.set? a, g.set? b with
    | some s, some t => s.intersects t
    | _, _ => false

/-- **Must two nodes point to the same object?** They must if each points to one object only, the
same one. -/
def mustAlias (g : Snapshot) (a b : NodeId) : Bool :=
  match g.set? a, g.set? b with
  | some s, some t => s.size = 1 && t.size = 1 && s.first? = t.first?
  | _, _ => false

/-- The pairs of nodes below `n` for which a question is answered with yes, row by row. -/
def pairsBelow (n : Nat) (ask : NodeId → NodeId → Bool) : List (NodeId × NodeId) :=
  (List.range n).flatMap fun a => ((List.range n).filter (ask a)).map (a, ·)

/-- The figures of the sets and representatives listed, for a graph of `total` nodes. -/
def figures (total : Nat) (sets : Std.ExtTreeMap NodeId IdSet)
    (representatives : Std.ExtTreeMap NodeId NodeId) : SnapshotStats :=
  let sizes := sets.values.map IdSet.size
  let sum := sizes.foldl (· + ·) 0
  { totalNodes := total
    equivalenceClasses := total - representatives.size
    mergedNodes := representatives.size
    totalEdges := sum
    maxPointsToSize := sizes.foldl max 0
    avgPointsToSize := if sizes.isEmpty then 0 else Float.ofNat sum / Float.ofNat sizes.length }

end Snapshot

/-- **The snapshot of a solver.** A set is listed if it is not empty, and a class if its
representative subsumes a second node. -/
def Solver.freeze (s : Solver) : Snapshot :=
  let nodes := s.graph.nodeIds
  let reps := (s.classes.representativesOf nodes).toList
  let representatives := nodes.foldl
    (fun table n => if s.representative n = n then table else table.insert n (s.representative n)) ∅
  let sets := reps.foldl
    (fun table rep =>
      let set := s.store.get rep
      if set.isEmpty then table else table.insert rep set)
    ∅
  let classes := reps.foldl
    (fun table rep =>
      let members := s.classes.subsumed rep
      if members.size ≤ 1 then table else table.insert rep members)
    ∅
  { sets, representatives, classes, stats := Snapshot.figures nodes.length sets representatives }

end PointsTo
