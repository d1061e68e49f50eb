import PointsTo.Constraint
import PointsTo.Error
import Std.Data.ExtTreeMap
import Std.Data.ExtTreeSet

/-!
# The constraint graph

The nodes are numbered from zero without gaps. The constraints are edges, held by kind; each edge is
held once, and a copy of a node to itself is not held at all. Edges are found from the node at which
the analysis looks for them: copies, field addresses and loads from their source, stores from their
destination, the pointer.

## Main definitions

* `EdgeTable`: the edges of one kind
* `ConstraintGraph`: nodes and edges
* `ConstraintGraph.addNode`, `ConstraintGraph.insert`, `ConstraintGraph.insertAll`: growing the
  graph
* `ConstraintGraph.addressEdges`, `copyOut`, `gepOut`, `loadOut`, `storeIn`: the edges, in the order
  in which they were inserted
-/

namespace PointsTo

/-- The edges of one kind, found from one of their ends, the key. -/
structure EdgeTable where
  /-- All edges, key first, in the order of insertion. -/
  listed : Array (NodeId × NodeId) := #[]
  /-- The other ends by key, in the order of insertion. -/
  neighbours : Std.ExtTreeMap NodeId (Array NodeId) := ∅
  /-- The edges held. -/
  index : Std.ExtTreeSet (NodeId × NodeId) lexOrd.compare := ∅

namespace EdgeTable

/-- All edges, key first, in the order of insertion. -/
def toList (t : EdgeTable) : List (NodeId × NodeId) := t.listed.toList

/-- The other ends of the edges at a key, in the order of insertion. -/
def get (t : EdgeTable) (key : NodeId) : List NodeId := (t.neighbours.getD key #[]).toList

/-- Whether the edge is held. -/
def contains (t : EdgeTable) (key other : NodeId) : Bool := t.index.contains (key, other)

/-- The number of edges. -/
def size (t : EdgeTable) : Nat := t.listed.size

/-- Adds an edge that is not held yet. -/
def add (t : EdgeTable) (key other : NodeId) : EdgeTable where
  listed := t.listed.push (key, other)
  neighbours := t.neighbours.insert key ((t.neighbours.getD key #[]).push other)
  index := t.index.insert (key, other)

@[simp] theorem toList_add (t : EdgeTable) (key other : NodeId) :
    (t.add key other).toList = t.toList ++ [(key, other)] := by simp [toList, add]

theorem get_add (t : EdgeTable) (key other k : NodeId) :
    (t.add key other).get k = if k = key then t.get key ++ [other] else t.get k := by
  simp only [get, add, Std.ExtTreeMap.getD_insert, Std.LawfulEqCmp.compare_eq_iff_eq]
  grind

@[simp] theorem contains_add (t : EdgeTable) (key other k m : NodeId) :
    (t.add key other).contains k m = ((k = key ∧ m = other) ∨ t.contains k m) := by
  simp [contains, add, Std.ExtTreeSet.contains_insert, Prod.ext_iff]
  grind

end EdgeTable

/-- The number of edges of each kind. -/
structure EdgeCounts where
  addr : Nat
  copy : Nat
  load : Nat
  store : Nat
  gep : Nat
deriving DecidableEq, Repr

/-- Nodes, numbered from zero, and the constraints between them. -/
structure ConstraintGraph where
  /-- The kind of each node. -/
  kinds : Array NodeKind := #[]
  /-- Addresses, from object to pointer. -/
  addresses : EdgeTable := {}
  /-- Copies, from source to destination. -/
  copies : EdgeTable := {}
  /-- Field addresses, from base to destination. -/
  geps : EdgeTable := {}
  /-- Loads, from pointer to destination. -/
  loads : EdgeTable := {}
  /-- Stores, from pointer to source. -/
  stores : EdgeTable := {}

namespace ConstraintGraph

/-- The graph with the given nodes and no edges. -/
def ofKinds (kinds : List NodeKind) : ConstraintGraph := { kinds := kinds.toArray }

/-- The number of nodes. -/
def nodeCount (g : ConstraintGraph) : Nat := g.kinds.size

/-- The nodes in ascending order. -/
def nodeIds (g : ConstraintGraph) : List NodeId := List.range g.nodeCount

/-- Whether the graph has the node. -/
def hasNode (g : ConstraintGraph) (n : NodeId) : Bool := n < g.nodeCount

/-- The kind of a node of the graph. -/
def kind? (g : ConstraintGraph) (n : NodeId) : Option NodeKind := g.kinds[n]?

/-- Adds a node and hands out its number. -/
def addNode (g : ConstraintGraph) (kind : NodeKind) : ConstraintGraph × NodeId :=
  ({ g with kinds := g.kinds.push kind }, g.nodeCount)

/-- The first of the given nodes that the graph does not have. -/
def missing? (g : ConstraintGraph) (nodes : List NodeId) : Option NodeId :=
  nodes.find? fun n => !g.hasNode n

/-! ## Edges -/

/-- The edges of a kind. -/
def table (g : ConstraintGraph) : ConstraintKind → EdgeTable
  | .addr => g.addresses
  | .copy => g.copies
  | .load => g.loads
  | .store => g.stores
  | .gep => g.geps

/-- Replaces the edges of a kind. -/
def setTable (g : ConstraintGraph) (kind : ConstraintKind) (t : EdgeTable) : ConstraintGraph :=
  match kind with
  | .addr => { g with addresses := t }
  | .copy => { g with copies := t }
  | .load => { g with loads := t }
  | .store => { g with stores := t }
  | .gep => { g with geps := t }

/-- An edge as its table holds it: stores are found from their destination, all others from their
source. -/
def oriented (kind : ConstraintKind) (src dst : NodeId) : NodeId × NodeId :=
  match kind with
  | .store => (dst, src)
  | _ => (src, dst)

/-- Whether the graph holds the edge. -/
def hasEdge (g : ConstraintGraph) (kind : ConstraintKind) (src dst : NodeId) : Bool :=
  let e := oriented kind src dst
  (g.table kind).contains e.1 e.2

/-- Whether an edge from a node to itself says nothing. -/
def isIdle (kind : ConstraintKind) (src dst : NodeId) : Bool :=
  match kind with
  | .copy | .gep => src = dst
  | .addr | .load | .store => false

/-- Adds an edge between nodes of the graph unless it says nothing or is held; tells whether it was
added. -/
def addEdge (g : ConstraintGraph) (kind : ConstraintKind) (src dst : NodeId) :
    ConstraintGraph × Bool :=
  if isIdle kind src dst || g.hasEdge kind src dst then (g, false)
  else
    let e := oriented kind src dst
    (g.setTable kind ((g.table kind).add e.1 e.2), true)

/-- **Adds a constraint**; refuses one that names a node the graph does not have, the source being
looked at first. -/
def insert (g : ConstraintGraph) (c : Constraint) :
    Except AnalysisError (ConstraintGraph × Bool) :=
  match g.missing? [c.src, c.dst] with
  | some n => .error (.unknownNode n)
  | none => .ok (g.addEdge c.kind c.src c.dst)

/-- Adds constraints up to the first one that is refused; counts the edges that are new. -/
def insertAll (g : ConstraintGraph) :
    List Constraint → ConstraintGraph × Except AnalysisError Nat
  | [] => (g, .ok 0)
  | c :: cs =>
    match g.insert c with
    | .error e => (g, .error e)
    | .ok (g, added) =>
      let (g, count) := g.insertAll cs
      (g, count.map (· + if added then 1 else 0))

/-- The graph with the given nodes and constraints. -/
def ofConstraints (kinds : List NodeKind) (cs : List Constraint) :
    Except AnalysisError ConstraintGraph :=
  let (g, count) := (ofKinds kinds).insertAll cs
  count.map fun _ => g

/-- Adds a copy when the graph has both nodes; tells whether it was added. -/
def addCopy (g : ConstraintGraph) (src dst : NodeId) : ConstraintGraph × Bool :=
  match g.missing? [src, dst] with
  | some _ => (g, false)
  | none => g.addEdge .copy src dst

/-- The addresses, each as object and pointer. -/
def addressEdges (g : ConstraintGraph) : List (NodeId × NodeId) := g.addresses.toList

/-- The destinations of the copies of `n`. -/
def copyOut (g : ConstraintGraph) (n : NodeId) : List NodeId := g.copies.get n

/-- The destinations of the field addresses of `n`. -/
def gepOut (g : ConstraintGraph) (n : NodeId) : List NodeId := g.geps.get n

/-- The destinations of the loads through `n`. -/
def loadOut (g : ConstraintGraph) (n : NodeId) : List NodeId := g.loads.get n

/-- The sources of the stores through `n`. -/
def storeIn (g : ConstraintGraph) (n : NodeId) : List NodeId := g.stores.get n

/-- The number of edges of each kind. -/
def edgeCounts (g : ConstraintGraph) : EdgeCounts where
  addr := g.addresses.size
  copy := g.copies.size
  load := g.loads.size
  store := g.stores.size
  gep := g.geps.size

end ConstraintGraph

end PointsTo
