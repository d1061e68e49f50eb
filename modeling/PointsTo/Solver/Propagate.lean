import PointsTo.Solver.Merge

/-!
# Draining the worklist

The address edges put each object into the set of its pointer. Treating a class applies its
constraints: a copy or a field address unifies its two ends; a load unifies every object of the
class with the destination, a store every object with the source. Classes are treated until none
waits.

A treated class leaves the worklist, and a class joins it only when two classes become one; so a
drain takes at most as many steps as there are waiting classes and nodes.

## Main definitions

* `Solver.seed`: the address edges
* `Solver.treat`: the constraints of one class
* `Solver.solve`: draining the worklist
-/

namespace PointsTo.Solver

/-! ## Address edges -/

/-- The address edges of the graph, and then those from outside. -/
def addressEdges (s : Solver) : List (NodeId × NodeId) :=
  s.graph.addressEdges ++ s.outsideAddresses

/-- One address edge: the object joins the set of the pointer, whose class waits. -/
def seedEdge (s : Solver) (object pointer : NodeId) : Solver :=
  let s := { s with counters.addrEdgesProcessed := s.counters.addrEdgesProcessed + 1 }
  ((s.addObject pointer object).1.enqueue pointer).1

/-- Address edges up to the first one that names a node the graph does not have. -/
def seedEdges (s : Solver) : List (NodeId × NodeId) → Solver × Except AnalysisError Unit
  | [] => (s, .ok ())
  | (object, pointer) :: rest =>
    match s.graph.missing? [object, pointer] with
    | some n => (s, .error (.unknownNode n))
    | none => (s.seedEdge object pointer).seedEdges rest

/-- **All address edges.** -/
def seed (s : Solver) : Solver × Except AnalysisError Unit := s.seedEdges s.addressEdges

/-! ## Treating a class -/

/-- One store through a pointer to `object`: the source flows into the object. -/
def joinStore (object : NodeId) (s : Solver) (src : NodeId) : Solver :=
  let s := { s with counters.storeEdgesProcessed := s.counters.storeEdgesProcessed + 1 }
  (s.unify src object).1

/-- One load through a pointer to `object`: the object flows into the destination. -/
def joinLoad (object : NodeId) (s : Solver) (dst : NodeId) : Solver :=
  let s := { s with counters.loadEdgesProcessed := s.counters.loadEdgesProcessed + 1 }
  (s.unify object dst).1

/-- All stores and loads through a pointer to `object`. -/
def joinObject (edges : ClassEdges) (s : Solver) (object : NodeId) : Solver :=
  edges.loads.foldl (joinLoad object) (edges.stores.foldl (joinStore object) s)

/-- An end of a store or a load: once one object is joined, its class holds all the others. -/
def anchor? (edges : ClassEdges) : Option NodeId := edges.stores.head? <|> edges.loads.head?

/-- The stores and loads through a pointer to one more object, unless the object is in the class of
the anchor: then nothing is left to unify. -/
def joinNextObject (edges : ClassEdges) (s : Solver) (object : NodeId) : Solver :=
  match anchor? edges with
  | none => joinObject edges s object
  | some a =>
    if s.representative a = s.representative object then s else joinObject edges s object

/-- The stores and loads through a pointer to the given objects. -/
def joinObjects (edges : ClassEdges) (s : Solver) : List NodeId → Solver
  | [] => s
  | object :: objects => objects.foldl (joinNextObject edges) (joinObject edges s object)

/-- One copy: its two ends become one class. -/
def joinCopy (s : Solver) (edge : NodeId × NodeId) : Solver :=
  let s := { s with counters.copyEdgesProcessed := s.counters.copyEdgesProcessed + 1 }
  (s.unify edge.1 edge.2).1

/-- One field address: the field is the base itself, so the two ends become one class. -/
def joinGep (s : Solver) (edge : NodeId × NodeId) : Solver :=
  let s := { s with counters.gepEdgesProcessed := s.counters.gepEdgesProcessed + 1 }
  (s.unify edge.1 edge.2).1

/-- The constraints `edges` of a class with the given objects. -/
def applyEdges (edges : ClassEdges) (objects : List NodeId) (s : Solver) : Solver :=
  edges.geps.foldl joinGep (edges.copies.foldl joinCopy (joinObjects edges s objects))

/-- **Treats a class**: applies its constraints. Copies and field addresses leave the class for
good. A load or a store through an object that is not a node of the graph is refused. -/
def treat (s : Solver) (rep : NodeId) : Solver × Except AnalysisError Unit :=
  match s.graph.missing? [rep] with
  | some n => (s, .error (.unknownNode n))
  | none =>
    let s := s.loadEdges rep
    let objects := (s.pointsTo rep).toList
    match s.edges[rep]? with
    | none => (s, .ok ())
    | some edges =>
      match s.graph.missing? (if edges.touchesMemory then objects else []) with
      | some n => (s, .error (.unknownNode n))
      | none =>
        (applyEdges edges objects { s with edges := s.edges.insert rep edges.lasting }, .ok ())

/-! ## The drain -/

/-- Counts a class taken from the worklist. -/
def countPop (s : Solver) : Solver :=
  { s with counters.worklistPops := s.counters.worklistPops + 1 }

/-- Treats waiting classes, at most `steps` of them. -/
def drain : Nat → Solver → Solver × Except AnalysisError Unit
  | 0, s => (s, .ok ())
  | steps + 1, s =>
    match s.dequeue? with
    | none => (s, .ok ())
    | some (rep, s) =>
      match s.countPop.treat rep with
      | (s, .error e) => (s, .error e)
      | (s, .ok ()) => drain steps s

/-- A number of steps after which no class waits: every step takes one class, and every class that
joins the worklist joins it because the number of classes dropped. -/
def drainBound (s : Solver) : Nat := s.worklist.size + s.graph.nodeCount

/-- **Treats classes until none waits.** The first call looks at the address edges before. -/
def solve (s : Solver) : Solver × Except AnalysisError Unit :=
  if s.seeded then drain s.drainBound s
  else
    match s.seed with
    | (s, .error e) => (s, .error e)
    | (s, .ok ()) => drain s.drainBound { s with seeded := true }

end PointsTo.Solver
