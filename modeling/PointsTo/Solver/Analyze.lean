import PointsTo.Solver.Connect
import PointsTo.Solver.Propagate

/-!
# The analysis

An analysis treats classes until none waits, asks a source of call targets for callees, connects
them, and starts over, until a round connects nothing new or the rounds allowed are used up.

The built-in source reads the points-to set of each function pointer: every object in it that stands
for a function names a callee. Another source may be given in its place. Whatever a source answers,
each round but the last connects a new pair of a site and a function, so there are at most as many
rounds as such pairs.

## Main definitions

* `Solver.newTargets`: the callees that the points-to sets show and that are not connected
* `TargetSource`: what is asked for callees, with a memory of its own
* `Analysis`: a solver with its source
* `Analysis.run`, `Solver.analyze`: the analysis
-/

namespace PointsTo

namespace Solver

/-- The callees that the set of the function pointer of a site shows and that are not connected. -/
def newCallees (s : Solver) (site : SiteId) (registered : CallSite) : List FunctionId :=
  (s.pointsTo registered.funPtr).toList.filterMap fun object =>
    match s.functions.forObject? object with
    | none => none
    | some callee => if s.calls.hasEdge site callee.id then none else some callee.id

/-- **The callees that the points-to sets show** and that are not connected yet. -/
def newTargets (s : Solver) : CallEdges :=
  s.sites.toList.foldl
    (fun found entry =>
      (s.newCallees entry.1 entry.2).foldl (fun found callee => found.insert entry.1 callee) found)
    ∅

/-- The number of pairs of a site and a function. -/
def pairBound (s : Solver) : Nat := s.sites.size * s.functions.size

end Solver

/-- A source of call targets: given the solver and its own memory, it answers the callees to connect
and its memory afterwards. -/
structure TargetSource (σ : Type) where
  /-- The answer of one round. -/
  next : Solver → σ → CallEdges × σ

/-- The source that reads the points-to sets of the function pointers. It leaves its memory as it
is. -/
def TargetSource.builtin {σ : Type} : TargetSource σ := ⟨fun s memory => (s.newTargets, memory)⟩

/-- A solver with its source of call targets. -/
structure Analysis (σ : Type) where
  /-- The solver. -/
  solver : Solver
  /-- The source. -/
  source : TargetSource σ
  /-- What the source remembers. -/
  memory : σ

namespace Analysis

variable {σ : Type}

/-- Asks the source for callees. -/
def targets (a : Analysis σ) : CallEdges × Analysis σ :=
  let (found, memory) := a.source.next a.solver a.memory
  (found, { a with memory })

/-- What follows the last round that the settings allow. -/
def stopAtLimit (a : Analysis σ) (limit rounds : Nat) : Analysis σ × Except AnalysisError Nat :=
  let (solver, outcome) := (a.solver.report (.roundLimitReached limit)).solve
  ({ a with solver }, outcome.map fun _ => rounds)

/-- Rounds of the analysis, at most `fuel` more of them after `rounds`; counts the rounds that
connected a new callee. -/
def runRounds (a : Analysis σ) : Nat → Nat → Analysis σ × Except AnalysisError Nat
  | 0, rounds => (a, .ok rounds)
  | fuel + 1, rounds =>
    match (a.solver.report (.roundStarted rounds)).solve with
    | (solver, .error e) => ({ a with solver }, .error e)
    | (solver, .ok ()) =>
      let (found, a) := { a with solver }.targets
      match a.solver.connect found with
      | (solver, .error e) => ({ a with solver }, .error e)
      | (solver, .ok false) => ({ a with solver }, .ok rounds)
      | (solver, .ok true) =>
        let a := { a with solver }
        match solver.settings.maxCallGraphRounds with
        | none => a.runRounds fuel (rounds + 1)
        | some limit =>
          if limit ≤ rounds + 1 then a.stopAtLimit limit (rounds + 1)
          else a.runRounds fuel (rounds + 1)

/-- Makes every class wait, and reports the start. -/
def start (s : Solver) : Solver :=
  (s.report (.analysisStarted s.graph.nodeCount s.sites.size s.functions.size)).enqueueNodes

/-- Counts the rounds and the classes, and reports the end. -/
def finish (s : Solver) (rounds : Nat) : Solver :=
  let classes := s.classes.countClasses s.graph.nodeIds
  let s := { s with
    counters.callGraphRounds := s.counters.callGraphRounds + rounds
    counters.equivalenceClasses := classes }
  s.report (.analysisFinished classes s.counters.merges rounds s.counters.indirectCallEdges)

/-- **The analysis.** -/
def run (a : Analysis σ) : Analysis σ × Except AnalysisError Unit :=
  let a := { a with solver := start a.solver }
  match a.runRounds (a.solver.pairBound + 1) 0 with
  | (a, .error e) => (a, .error e)
  | (a, .ok rounds) => ({ a with solver := finish a.solver rounds }, .ok ())

end Analysis

/-- The analysis with the built-in source of call targets. -/
def Solver.analyze (s : Solver) : Solver × Except AnalysisError Unit :=
  let (a, outcome) := Analysis.run ⟨s, .builtin, ()⟩
  (a.solver, outcome)

end PointsTo
