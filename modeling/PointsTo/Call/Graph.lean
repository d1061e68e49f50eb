import PointsTo.Event
import PointsTo.IdSet
import Std.Data.ExtTreeMap

/-!
# The call graph

The callees connected to each site, and how far each site is resolved. After every round a site is
partially resolved if the round connected a callee to it, stable if it has callees but gained none,
and unresolved otherwise.

## Main definitions

* `CallEdges`: callees by site, as a source of targets reports them
* `CallGraph`: the callees connected so far, with the state of each site
* `CallGraph.insert`: connecting one callee
* `CallGraph.recordRound`: the states after a round
-/

namespace PointsTo

/-- Callees by site. A site may be listed without callees. -/
structure CallEdges where
  /-- The callees of each site listed. -/
  targets : Std.ExtTreeMap SiteId IdSet := ∅

namespace CallEdges

/-- No site at all. -/
def empty : CallEdges := {}

instance : EmptyCollection CallEdges := ⟨empty⟩

/-- The callees of a site. -/
def get (e : CallEdges) (site : SiteId) : IdSet := e.targets.getD site ∅

/-- Adds callees to a site, which is listed from then on. -/
def insertAll (e : CallEdges) (site : SiteId) (callees : IdSet) : CallEdges :=
  ⟨e.targets.insert site (e.get site ∪ callees)⟩

/-- Adds one callee to a site. -/
def insert (e : CallEdges) (site : SiteId) (callee : FunctionId) : CallEdges :=
  ⟨e.targets.insert site ((e.get site).insert callee)⟩

/-- The edges of a list, in which a site may stand several times. -/
def ofList (entries : List (SiteId × List FunctionId)) : CallEdges :=
  entries.foldl (fun e entry => e.insertAll entry.1 (.ofList entry.2)) empty

/-- The sites listed, each with its callees, in ascending order. -/
def toList (e : CallEdges) : List (SiteId × IdSet) := e.targets.toList

end CallEdges

/-- The callees connected to each site, and the state of each site. -/
structure CallGraph where
  /-- The callees of each site. -/
  callees : Std.ExtTreeMap SiteId IdSet := ∅
  /-- The state of each site that took part in a round. -/
  states : Std.ExtTreeMap SiteId CallSiteState := ∅
  /-- The number of connected pairs. -/
  edgeCount : Nat := 0

namespace CallGraph

/-- No callee connected. -/
def empty : CallGraph := {}

instance : EmptyCollection CallGraph := ⟨empty⟩

/-- The callees connected to a site. -/
def calleesOf (g : CallGraph) (site : SiteId) : IdSet := g.callees.getD site ∅

/-- Whether the callee is connected to the site. -/
def hasEdge (g : CallGraph) (site : SiteId) (callee : FunctionId) : Bool :=
  (g.calleesOf site).contains callee

/-- Connects a callee to a site; tells whether it was not connected before. -/
def insert (g : CallGraph) (site : SiteId) (callee : FunctionId) : CallGraph × Bool :=
  if g.hasEdge site callee then (g, false)
  else
    ({ g with
        callees := g.callees.insert site ((g.calleesOf site).insert callee)
        edgeCount := g.edgeCount + 1 }, true)

/-- The state of a site. -/
def state (g : CallGraph) (site : SiteId) : CallSiteState := g.states.getD site .unresolved

/-- The sites with callees, in ascending order. -/
def resolvedSites (g : CallGraph) : List SiteId :=
  (g.callees.toList.filter fun entry => !entry.2.isEmpty).map Prod.fst

/-- The state of a site after a round in which the sites of `connected` gained a callee. -/
def nextState (g : CallGraph) (connected : IdSet) (site : SiteId) : CallSiteState :=
  if connected.contains site then .partiallyResolved
  else if (g.calleesOf site).isEmpty then .unresolved
  else .stable

/-- Moves one site to its state after a round; reports a change. -/
def recordSite (g : CallGraph) (connected : IdSet) (site : SiteId) : CallGraph × List Event :=
  let prev := g.state site
  let next := g.nextState connected site
  ({ g with states := g.states.insert site next },
    if prev = next then [] else [.siteStateChanged site prev next])

/-- **Moves every given site to its state after a round** in which the sites of `connected` gained a
callee; reports the changes in order. -/
def recordRound (g : CallGraph) (connected : IdSet) : List SiteId → CallGraph × List Event
  | [] => (g, [])
  | site :: sites =>
    let (g, change) := g.recordSite connected site
    let (g, changes) := g.recordRound connected sites
    (g, change ++ changes)

end CallGraph

end PointsTo
