import PointsTo.Proofs.Reachable

/-!
# Solved states are closed

The result of an analysis is conservative: it satisfies every constraint of the graph that the
solver holds at the end, the copies found while connecting calls included. This holds after any
history of operations, for every source of call targets, every order of the worklist, every policy
and every bound on the rounds.

## Main definitions

* `Solver.Closed`: a state that satisfies every constraint of its graph

## Main results

* `Solved.closed`: a solved state is closed
* `closed_run_of_reachable`: a run that does not fail leaves a closed state
-/

namespace PointsTo

open Solver

/-- **A state that satisfies every constraint of its graph.** -/
structure Solver.Closed (s : Solver) : Prop where
  /-- The pointer points to the object. -/
  addr : ∀ {o p}, s.graph.hasEdge .addr o p = true → o ∈ s.pointsTo p
  /-- Source and destination of a copy share a class. -/
  copy : ∀ {a b}, s.graph.hasEdge .copy a b = true → s.representative a = s.representative b
  /-- Base and destination of a field address share a class. -/
  gep : ∀ {a b}, s.graph.hasEdge .gep a b = true → s.representative a = s.representative b
  /-- The destination of a load shares the class of whatever the pointer points to. -/
  load : ∀ {p r}, s.graph.hasEdge .load p r = true →
    ∀ o ∈ s.pointsTo p, s.representative o = s.representative r
  /-- The source of a store shares the class of whatever the pointer points to. -/
  store : ∀ {q p}, s.graph.hasEdge .store q p = true →
    ∀ o ∈ s.pointsTo p, s.representative o = s.representative q

variable {p : Problem} {s : Solver}

/-- A solved state is closed. -/
theorem Solver.Solved.closed (hs : s.Coherent) (h : s.Solved) : s.Closed where
  addr hedge := by
    have hmem := hs.valid.graph.mem_addressEdges.mpr hedge
    exact hs.seeded h.seeded _ (List.mem_append_left _ hmem)
  copy hedge := (h.settled _).flow (.inl hedge)
  gep hedge := (h.settled _).flow (.inr hedge)
  load hedge := ((h.settled _).memory (.inl hedge)).2
  store hedge := ((h.settled _).memory (.inr hedge)).2

/-- **The result of an analysis satisfies every constraint**: whatever was done to the solver
before, and whatever source of call targets is asked, a run that does not fail leaves a closed
state. -/
theorem closed_run_of_reachable (hp : p.Made) (hs : Reachable .any p s) {σ : Type}
    (source : TargetSource σ) (memory : σ)
    (hok : (Analysis.run ⟨s, source, memory⟩).2 = .ok ()) :
    (Analysis.run ⟨s, source, memory⟩).1.solver.Closed := by
  have hcoherent := hs.coherent hp
  have hsteps := Analysis.steps_run (a := ⟨s, source, memory⟩) (Licence.le_refl .analysis) hcoherent
  exact (Analysis.solved_run hcoherent hok).closed (hcoherent.steps hsteps)

/-- The sample after a class was taken from those that wait, two classes were merged by hand and a
round was refused. -/
def sampleHistory : Solver :=
  ([.enqueueNodes, .hand .dequeue, .hand (.mergeInto 5 2), .connect (.ofList [(4, [3])])] :
    List Operation).foldl (fun s op => op.apply s) sampleSolver

theorem reachable_sampleHistory : Reachable .any sampleProblem sampleHistory := by
  refine .apply (.connect (.ofList [(4, [3])])) (.apply (.hand (.mergeInto 5 2))
    (.apply (.hand .dequeue) (.apply .enqueueNodes (.start ofProblem_sampleProblem) ?_) ?_) ?_) ?_
  all_goals exact fun _ _ => trivial

theorem closed_run_sampleHistory :
    (Analysis.run ⟨sampleHistory, .builtin, ()⟩).2 = .ok () ∧
      (Analysis.run ⟨sampleHistory, .builtin, ()⟩).1.solver.Closed := by
  have hok : (Analysis.run ⟨sampleHistory, .builtin, ()⟩).2 = .ok () := by decide +kernel
  exact ⟨hok, closed_run_of_reachable sampleProblem_made reachable_sampleHistory .builtin () hok⟩

end PointsTo
