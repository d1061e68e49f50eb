import PointsTo.Call.Function
import PointsTo.Call.Graph
import PointsTo.ConstraintGraph
import PointsTo.Settings.Basic
import PointsTo.Store

/-!
# The state of the solver

The solver holds the constraint graph, one points-to set for each class of nodes, the classes, and
the classes whose constraints are to be applied. The constraints of a node join those of its class
when the class is first treated; from then on they move with the class.

## Main definitions

* `Problem`: what an analysis is given
* `ClassEdges`: the constraints that wait at a class
* `Counters`: what the solver counts
* `Solver`: the state
* `Solver.ofProblem`: the state before the analysis
* `Solver.representative`, `Solver.pointsTo`: reading the classes and their sets
-/

namespace PointsTo

/-- The constraints that wait at a class. Copies and field addresses are applied once; loads and
stores are applied again whenever the set of the class may have grown. -/
structure ClassEdges where
  /-- Copies, as source and destination. -/
  copies : List (NodeId × NodeId) := []
  /-- Field addresses, as base and destination. -/
  geps : List (NodeId × NodeId) := []
  /-- Destinations of loads through a member. -/
  loads : List NodeId := []
  /-- Sources of stores through a member. -/
  stores : List NodeId := []
deriving DecidableEq, Repr, Inhabited

namespace ClassEdges

/-- The constraints of both classes, those of the first one first. -/
def append (a b : ClassEdges) : ClassEdges where
  copies := a.copies ++ b.copies
  geps := a.geps ++ b.geps
  loads := a.loads ++ b.loads
  stores := a.stores ++ b.stores

instance : Append ClassEdges := ⟨append⟩

/-- Whether a load or a store waits. -/
def touchesMemory (e : ClassEdges) : Bool := !e.loads.isEmpty || !e.stores.isEmpty

/-- The constraints that stay when the others were applied. -/
def lasting (e : ClassEdges) : ClassEdges := { e with copies := [], geps := [] }

end ClassEdges

/-- The constraints of one node. -/
def ConstraintGraph.edgesAt (g : ConstraintGraph) (n : NodeId) : ClassEdges where
  copies := (g.copyOut n).map (n, ·)
  geps := (g.gepOut n).map (n, ·)
  loads := g.loadOut n
  stores := g.storeIn n

/-- What the solver counts. -/
structure Counters where
  addrEdgesProcessed : Nat := 0
  copyEdgesProcessed : Nat := 0
  gepEdgesProcessed : Nat := 0
  loadEdgesProcessed : Nat := 0
  storeEdgesProcessed : Nat := 0
  merges : Nat := 0
  worklistPops : Nat := 0
  callGraphRounds : Nat := 0
  indirectCallEdges : Nat := 0
  dummyObjects : Nat := 0
  equivalenceClasses : Nat := 0
deriving DecidableEq, Repr, Inhabited

/-- The counters by name, in their order. -/
def Counters.toList (c : Counters) : List (String × Nat) :=
  [("addr_edges_processed", c.addrEdgesProcessed),
    ("copy_edges_processed", c.copyEdgesProcessed),
    ("gep_edges_processed", c.gepEdgesProcessed),
    ("load_edges_processed", c.loadEdgesProcessed),
    ("store_edges_processed", c.storeEdgesProcessed),
    ("merges", c.merges),
    ("worklist_pops", c.worklistPops),
    ("call_graph_rounds", c.callGraphRounds),
    ("indirect_call_edges", c.indirectCallEdges),
    ("dummy_objects", c.dummyObjects),
    ("equivalence_classes", c.equivalenceClasses)]

/-- The memory that an indirect call site allocates: `value` points to `object`. -/
structure Allocation where
  /-- The node that points to the memory. -/
  value : NodeId
  /-- The memory. -/
  object : NodeId
deriving DecidableEq, Repr

/-- What an analysis is given. -/
structure Problem where
  /-- Nodes and constraints. -/
  graph : ConstraintGraph
  /-- Address edges from outside the graph, each as object and pointer. They are looked at after
  those of the graph, and nothing is known of their nodes before. -/
  outsideAddresses : List (NodeId × NodeId) := []
  /-- The points-to sets at the start. -/
  store : Store := ∅
  /-- The functions. -/
  functions : FunctionTable := ∅
  /-- The call sites; of those with one name the last one counts. -/
  sites : List CallSite := []
  /-- The choices. -/
  settings : Settings := {}

/-- The state of the solver. -/
structure Solver where
  /-- The choices. -/
  settings : Settings
  /-- Nodes and constraints, those found during the analysis included. -/
  graph : ConstraintGraph
  /-- Address edges from outside the graph. -/
  outsideAddresses : List (NodeId × NodeId)
  /-- The points-to sets, held at representatives. -/
  store : Store
  /-- The classes. -/
  classes : Partition := ∅
  /-- The classes that wait to be treated. -/
  worklist : Worklist
  /-- Whether the address edges were looked at. -/
  seeded : Bool := false
  /-- The constraints that wait at each class, by representative. -/
  edges : Std.ExtTreeMap NodeId ClassEdges := ∅
  /-- The nodes whose constraints joined their class. -/
  loaded : Std.ExtTreeSet NodeId := ∅
  /-- The functions. -/
  functions : FunctionTable
  /-- The call sites by name. -/
  sites : Std.ExtTreeMap SiteId CallSite
  /-- The callees connected so far. -/
  calls : CallGraph := ∅
  /-- The memory allocated at each site. -/
  allocations : Std.ExtTreeMap SiteId Allocation := ∅
  /-- What was counted. -/
  counters : Counters := {}
  /-- The number that a session gave to this analysis. -/
  generation : Nat := 0
  /-- What was reported, newest first. -/
  journal : List Event := []

namespace Solver

/-- The call sites by name; of those with one name the last one counts. -/
def sitesById (sites : List CallSite) : Std.ExtTreeMap SiteId CallSite :=
  sites.foldl (fun table site => table.insert site.id site) ∅

/-- The nodes that the sites and then the functions name, in the order in which they are checked.
Sites are checked by name. Functions have no order of their own: of several functions that name
missing nodes any one may be reported, and here it is the one with the least name. -/
def namedNodes (sites : Std.ExtTreeMap SiteId CallSite) (functions : FunctionTable) :
    List NodeId :=
  sites.values.flatMap CallSite.nodes ++ functions.toList.flatMap FunctionDecl.nodes

/-- **The state before the analysis.** The settings are checked first; then every node that a site
or a function names has to be in the graph. -/
def ofProblem (p : Problem) : Except AnalysisError Solver :=
  match p.settings.validate with
  | .error cause => .error (.settings cause)
  | .ok () =>
    let sites := sitesById p.sites
    match p.graph.missing? (namedNodes sites p.functions) with
    | some n => .error (.unknownNode n)
    | none =>
      .ok
        { settings := p.settings
          graph := p.graph
          outsideAddresses := p.outsideAddresses
          store := p.store
          worklist := .empty p.settings.worklistOrder
          functions := p.functions
          sites }

/-- **The representative of the class of a node.** -/
def representative (s : Solver) (n : NodeId) : NodeId := s.classes.find n

/-- **The points-to set of a node**, which is that of its class. -/
def pointsTo (s : Solver) (n : NodeId) : IdSet := s.store.get (s.representative n)

/-- The members of the class of a node. -/
def classMembers (s : Solver) (n : NodeId) : IdSet := s.classes.classMembers n

/-- The memory allocated at a site. -/
def allocation? (s : Solver) (site : SiteId) : Option Allocation := s.allocations[site]?

/-- The names of the call sites in ascending order. -/
def siteIds (s : Solver) : List SiteId := s.sites.keys

/-- Whether no class waits to be treated. -/
def isIdle (s : Solver) : Bool := s.worklist.isEmpty

/-- The sets that are not empty, among those of the nodes of the graph and of all representatives of
nodes merged away. -/
def heldSets (s : Solver) : List (NodeId × IdSet) :=
  let reps := s.classes.representativesOf s.graph.nodeIds
    ∪ IdSet.ofList (s.classes.mappings.map Prod.snd)
  (reps.toList.map fun rep => (rep, s.store.get rep)).filter fun entry => !entry.2.isEmpty

/-! ## Reports -/

/-- Reports an event. -/
def report (s : Solver) (e : Event) : Solver := { s with journal := e :: s.journal }

/-- Reports events in order. -/
def reportAll (s : Solver) (events : List Event) : Solver := events.foldl report s

/-- What was reported since the last call, in order. -/
def takeReports (s : Solver) : List Event × Solver := (s.journal.reverse, { s with journal := [] })

/-! ## Growing a set -/

/-- Adds an object to the set of the class of `n`; tells whether it was absent. -/
def addObject (s : Solver) (n o : NodeId) : Solver × Bool :=
  let (store, grew) := s.store.insert (s.representative n) o
  ({ s with store }, grew)

/-- Adds objects to the set of the class of `n`; tells whether the set grew. -/
def addObjects (s : Solver) (n : NodeId) (objects : IdSet) : Solver × Bool :=
  let (store, grew) := s.store.union (s.representative n) objects
  ({ s with store }, grew)

/-- Adds the set of the class of `m` to that of the class of `n`; tells whether the set grew. -/
def addObjectsOf (s : Solver) (n m : NodeId) : Solver × Bool :=
  let (store, grew) := s.store.unionFrom (s.representative n) (s.representative m)
  ({ s with store }, grew)

/-- Records `sub` under `n`; no class changes. -/
def subsume (s : Solver) (n sub : NodeId) : Solver :=
  { s with classes := s.classes.subsume n sub }

/-! ## The waiting classes -/

/-- Makes the class of `n` wait; tells whether it did not wait before. -/
def enqueue (s : Solver) (n : NodeId) : Solver × Bool :=
  let (worklist, added) := s.worklist.push (s.representative n)
  ({ s with worklist }, added)

/-- Takes the next waiting node and resolves it: its class may have been merged away since. -/
def dequeue? (s : Solver) : Option (NodeId × Solver) :=
  match s.worklist.pop? with
  | none => none
  | some (n, worklist) => some (s.representative n, { s with worklist })

/-- Takes every waiting node in order, each resolved to its representative. -/
def dequeueAll (s : Solver) : List NodeId × Solver :=
  let (nodes, worklist) := s.worklist.drain
  (nodes.map s.representative, { s with worklist })

/-- Makes the class of every node of the graph wait. -/
def enqueueNodes (s : Solver) : Solver := s.graph.nodeIds.foldl (fun s n => (s.enqueue n).1) s

end Solver

end PointsTo
