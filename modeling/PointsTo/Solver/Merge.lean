import PointsTo.Solver.State

/-!
# Merging classes

When one class absorbs another, the points-to set and the waiting constraints of the absorbed class
move to the survivor, and the constraints of both former representatives join the merged class.

## Main definitions

* `Solver.loadEdges`: the constraints of a node join its class
* `Solver.absorb`: what follows a merge of two classes
* `Solver.mergeInto`: a merge with a given survivor
* `Solver.unify`: a merge by the chosen policy, after which the survivor waits to be treated
-/

namespace PointsTo.Solver

/-- The constraints of `n` join those of its class, once. -/
def loadEdges (s : Solver) (n : NodeId) : Solver :=
  if s.loaded.contains n then s
  else
    let rep := s.representative n
    { s with
      loaded := s.loaded.insert n
      edges := s.edges.insert rep (s.edges.getD rep {} ++ s.graph.edgesAt n) }

/-- Moves the set of `lost` to `survivor`. -/
def moveSet (s : Solver) (lost survivor : NodeId) : Solver :=
  let (moved, store) := s.store.take lost
  { s with store := (store.union survivor moved).1 }

/-- Moves the waiting constraints of `lost` behind those of `survivor`. -/
def moveEdges (s : Solver) (lost survivor : NodeId) : Solver :=
  match s.edges[lost]? with
  | none => s
  | some moved =>
    let rest := s.edges.erase lost
    { s with edges := rest.insert survivor (rest.getD survivor {} ++ moved) }

/-- Counts and reports a merge. -/
def countMerge (s : Solver) (lost survivor : NodeId) : Solver :=
  { s with counters.merges := s.counters.merges + 1 }.report (.classesMerged lost survivor)

/-- **What follows a merge**: set and constraints of the absorbed class move to the survivor, and
the constraints of the two former representatives join the class. -/
def absorb (s : Solver) (lost survivor : NodeId) : Solver :=
  let s := (s.moveSet lost survivor).moveEdges lost survivor
  ((s.loadEdges lost).loadEdges survivor).countMerge lost survivor

/-- **Merges the class of `n` into the class of `m`**, whose representative survives. -/
def mergeInto (s : Solver) (n m : NodeId) : Solver × Merge :=
  let (classes, merge) := s.classes.mergeInto n m
  match merge.absorbed with
  | none => (s, merge)
  | some lost => ({ s with classes }.absorb lost merge.survivor, merge)

/-- **Unifies the classes of `a` and `b`**, `b` being the side that pointers flow into. When two
different classes were joined, the survivor waits to be treated. -/
def unify (s : Solver) (a b : NodeId) : Solver × Merge :=
  let (classes, merge) := s.classes.union a b s.settings.representativePolicy
  match merge.absorbed with
  | none => (s, merge)
  | some lost =>
    let s := { s with classes }.absorb lost merge.survivor
    ((s.enqueue merge.survivor).1, merge)

end PointsTo.Solver
