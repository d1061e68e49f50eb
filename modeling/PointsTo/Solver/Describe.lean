import PointsTo.Solver.State

/-!
# A solver on one line
-/

namespace PointsTo

/-- The counters on one line; the time spent is not told. -/
def Counters.describe (c : Counters) : String :=
  let entries := c.toList.map fun (name, n) => name ++ ": " ++ toString n
  "SteensgaardStats \x7b " ++ ", ".intercalate entries ++ ", duration_ms: _ \x7d"

/-- **The solver on one line.** -/
def Solver.describe (s : Solver) : String :=
  "Steensgaard \x7b kind: Steensgaard"
    ++ s!", generation: {s.generation}, nodes: {s.graph.nodeCount}, call_sites: {s.sites.size}"
    ++ ", stats: " ++ s.counters.describe ++ ", .. \x7d"

end PointsTo
