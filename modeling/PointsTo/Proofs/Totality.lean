import PointsTo.Proofs.Contained
import PointsTo.Proofs.Solver.Targets

/-!
# What does not fail

The only thing that solving can fail for is a node that the graph does not have. A contained state
holds no such node, and no step of an analysis brings one in. Connecting the answer of the built-in
source does not fail either.

## Main results

* `treat_ok`, `drain_ok`, `solve_ok`: solving a contained state does not fail
* `connect_newTargets_ok`: nor does connecting what its sets show
-/

namespace PointsTo.Solver

variable {s : Solver} {n rep : NodeId} {edges : List (NodeId × NodeId)}

/-- Treating a class of the graph does not fail, as whatever it points to is a node of the graph. -/
theorem treat_ok (hc : s.Contained) (hrep : s.graph.hasNode rep = true) :
    (s.treat rep).2 = .ok () := by
  have hgraph : (s.loadEdges rep).graph = s.graph := by rw [loadEdges_eq]
  have hpts : (s.loadEdges rep).pointsTo rep = s.pointsTo rep := by
    rw [loadEdges_eq]
    rfl
  have hknown : s.graph.missing? [rep] = none := by
    rw [ConstraintGraph.missing?_eq_none]
    intro n hn
    rwa [List.mem_singleton.mp hn]
  have hobjects : ∀ touches : Bool, (s.loadEdges rep).graph.missing?
      (if touches then ((s.loadEdges rep).pointsTo rep).toList else []) = none := by
    intro touches
    rw [ConstraintGraph.missing?_eq_none, hgraph, hpts]
    intro o ho
    split at ho
    · exact hc.objects ho
    · cases ho
  unfold treat
  rw [hknown]
  dsimp only
  split
  · rfl
  · rw [hobjects]

theorem seedEdges_ok (h : ∀ e ∈ edges, s.graph.hasNode e.1 = true ∧ s.graph.hasNode e.2 = true) :
    (s.seedEdges edges).2 = .ok () := by
  induction edges generalizing s with
  | nil => rfl
  | cons e edges ih =>
    obtain ⟨o, p⟩ := e
    have hends := h (o, p) List.mem_cons_self
    have hknown : s.graph.missing? [o, p] = none := by
      rw [ConstraintGraph.missing?_eq_none]
      intro n hn
      rcases List.mem_cons.mp hn with rfl | hn
      · exact hends.1
      · rw [List.mem_singleton.mp hn]
        exact hends.2
    unfold seedEdges
    rw [hknown]
    exact ih fun e he => h e (List.mem_cons_of_mem _ he)

/-- A drain treats classes of the graph only. What waits is a node of the graph, and so is its
representative. -/
theorem drain_ok (hs : s.Coherent) (hc : s.Contained) (steps : Nat) :
    (drain steps s).2 = .ok () := by
  induction steps generalizing s with
  | zero => rfl
  | succ steps ih =>
    unfold drain
    cases hd : s.dequeue? with
    | none => rfl
    | some popped =>
      obtain ⟨rep, t⟩ := popped
      have hpop : Steps .analysis s t.countPop := .tail (.single (.pop hd)) (.note rfl rfl)
      have hrep : s.graph.hasNode rep = true := by
        obtain ⟨m, w, hpop, rfl, -⟩ := dequeue?_cases hd
        exact hc.hasNode_representative
          (hc.worklist ((Worklist.mem_of_pop? hpop).mpr (.inl rfl)))
      have htreat := treat_ok (hc.steps hs Licence.bounded_analysis hpop)
        ((Steps.grows hs hpop).hasNode hrep)
      have hsteps := steps_of_dequeue? (L := .analysis) hs.valid hd
      dsimp only
      cases hres : t.countPop.treat rep with
      | mk u outcome =>
        rw [hres] at htreat hsteps
        cases htreat
        exact ih (hs.steps hsteps) (hc.steps hs Licence.bounded_analysis hsteps)

/-- **Solving a contained state does not fail.** -/
theorem solve_ok (hs : s.Coherent) (hc : s.Contained)
    (haddr : ∀ e ∈ s.outsideAddresses, s.graph.hasNode e.1 = true ∧ s.graph.hasNode e.2 = true) :
    s.solve.2 = .ok () := by
  rcases solve_cases (L := .analysis) hs with ⟨e, -, hfailed⟩ | ⟨t, hsteps, -, -, -, heq⟩
  · have hseed : (s.seedEdges s.addressEdges).2 = .ok () := by
      refine seedEdges_ok fun e he => ?_
      rcases List.mem_append.mp he with he | he
      · exact hs.valid.graph.ends (hs.valid.graph.mem_addressEdges.mp he)
      · exact haddr e he
    rw [hseed] at hfailed
    cases hfailed
  · rw [heq]
    exact drain_ok (hs.steps hsteps) (hc.steps hs Licence.bounded_analysis hsteps) _

/-- **Connecting what the sets show does not fail.** -/
theorem connect_newTargets_ok (hr : s.Registered) :
    ∃ new, (s.connect s.newTargets).2 = .ok new := by
  rcases connect_cases hr s.newTargets with ⟨e, herror, -⟩ | ⟨pairs, -, heq⟩
  · obtain ⟨pairs, hpairs⟩ := resolve_newTargets hr
    rw [hpairs] at herror
    cases herror
  · rw [heq]
    exact ⟨_, rfl⟩

end PointsTo.Solver
