import PointsTo.Solver.Analyze

/-!
# Call targets from a script

A source of call targets that plays a list of prepared answers, one a round, and afterwards either
reads the points-to sets or answers nothing. Before each answer it writes down what it sees: the
watched nodes with their representatives and sets, and the size of the call graph.

## Main definitions

* `Playback`: the script and what was written down
* `Playback.source`: the script as a source of call targets
-/

namespace PointsTo

/-- What a script writes down before an answer. -/
structure Observation where
  /-- Each watched node with its representative and its set. -/
  nodes : List (NodeId × NodeId × IdSet)
  /-- The call sites. -/
  sites : List SiteId
  /-- The number of functions. -/
  functions : Nat
  /-- The number of connected callees. -/
  edges : Nat

/-- A script of call targets. -/
structure Playback where
  /-- The prepared answers. -/
  script : List CallEdges := []
  /-- Whether the points-to sets are read after the script. -/
  thenBuiltin : Bool := true
  /-- The nodes to watch. -/
  watch : List NodeId := []
  /-- What was written down, newest first. -/
  record : List Observation := []

namespace Playback

/-- What there is to see before an answer. -/
def observe (p : Playback) (s : Solver) : Observation where
  nodes := p.watch.map fun n => (n, s.representative n, s.pointsTo n)
  sites := s.siteIds
  functions := s.functions.size
  edges := s.calls.edgeCount

/-- One answer. -/
def next (s : Solver) (p : Playback) : CallEdges × Playback :=
  let p := { p with record := p.observe s :: p.record }
  match p.script with
  | answer :: script => (answer, { p with script })
  | [] => (if p.thenBuiltin then s.newTargets else ∅, p)

/-- **The script as a source of call targets.** -/
def source : TargetSource Playback := ⟨next⟩

/-- What was written down since the last call, in order. -/
def takeRecord (p : Playback) : List Observation × Playback :=
  (p.record.reverse, { p with record := [] })

/-- Goes on with the notes of another script, which come before its own. -/
def continueFrom (p : Playback) (record : List Observation) : Playback :=
  { p with record := p.record ++ record }

end Playback

end PointsTo
