import PointsTo.Proofs.Closure
import PointsTo.Proofs.Tally
import PointsTo.Proofs.Termination

/-!
# What an analysis costs

From a fresh state every class of the graph waits once. After that a class comes to wait only
because two classes were merged or because a copy was added between two of them. So the classes
taken from the worklist and those that wait are paid for by nodes, merges and copies; merges by
nodes, and rounds by pairs of a site and a function.

## Main definitions

* `Solver.arrivals`, `Solver.causes`: the classes that came to wait, and what makes classes wait
* `Solver.Caused`: between two states, arrivals are paid for by causes
* `Solver.Costs`: the bounds on merges, rounds and pops

## Main results

* `Caused.treat`, `Caused.solve`, `Caused.connect`: the parts of an analysis pay for what they make
  wait
* `costs_run`: what an analysis of a fresh state costs
* `terminates_of_reachable`: solving and analysing terminate from every state, at that cost from a
  fresh one
-/

namespace PointsTo

namespace Solver

variable {s t u : Solver} {R : NodeId → NodeId → Prop} {F : NodeId → NodeId → Prop}
  {A : SiteId → Prop} {v w : Solver × CopySet} {rep : NodeId}

/-- The classes taken from the worklist so far, and those that wait. -/
def arrivals (s : Solver) : Nat := s.counters.worklistPops + s.worklist.size

/-- The merges so far, and the copies of the graph. -/
def causes (s : Solver) : Nat := s.counters.merges + s.graph.edgeCounts.copy

/-- **Each class that came to wait in between did so for a merge or a copy.** -/
def Caused (s t : Solver) : Prop := t.arrivals + s.causes ≤ s.arrivals + t.causes

theorem Caused.refl (s : Solver) : s.Caused s := Nat.le_refl _

theorem Caused.trans (h₁ : s.Caused t) (h₂ : t.Caused u) : s.Caused u := by
  unfold Caused at h₁ h₂ ⊢
  omega

/-! ## Draining -/

/-- A unification that joins two classes is one merge, and makes one class wait at most. -/
theorem Caused.unify (s : Solver) (a b : NodeId) : s.Caused (s.unify a b).1 := by
  rcases s.unify_cases a b with ⟨-, heq⟩ | ⟨lost, survivor, -, heq⟩
  · rw [heq]
    exact .refl s
  · have hsize := Worklist.size_push_le s.worklist ((s.join lost survivor).representative survivor)
    rw [heq]
    simp only [Caused, arrivals, causes, Solver.enqueue]
    rw [join_eq] at hsize ⊢
    dsimp only at hsize ⊢
    omega

theorem Caused.joins (h : Joins R s t) : s.Caused t := by
  induction h with
  | refl => exact .refl s
  | @tail t counters a b _ hc _ ih =>
    have hpops := congrArg Counters.worklistPops hc
    have hmerges := congrArg Counters.merges hc
    have hcounted : t.Caused { t with counters } := by
      simp only [Counters.outcome] at hpops hmerges
      simp only [Caused, arrivals, causes]
      omega
    exact (ih.trans hcounted).trans (.unify _ a b)

theorem Caused.treat (hv : s.Valid) (hrep : s.representative rep = rep) :
    s.Caused (s.treat rep).1 := by
  obtain ⟨edges, loaded, held, -, hjoins⟩ := joins_treat hv hrep
  exact Caused.joins (s := { s with edges, loaded }) hjoins

/-- Taking a class turns one that waits into one that was taken. -/
theorem Caused.drain (hs : s.Coherent) (steps : Nat) : s.Caused (drain steps s).1 := by
  refine drain_keeps (I := s.Caused) hs (fun {t u rep} ht hst hd => ?_) (.refl s) steps
  have hrep := representative_of_dequeue? ht.valid hd
  have hvu : u.countPop.Valid := (ht.valid.dequeue? hd).congr rfl rfl rfl rfl rfl
  have hpop : t.Caused u.countPop := by
    obtain ⟨m, w, hpop, -, rfl⟩ := dequeue?_cases hd
    have hsize := Worklist.size_of_pop? hpop
    simp only [Caused, arrivals, causes, countPop]
    omega
  exact (hst.trans hpop).trans (.treat hvu hrep)

/-! ## Address edges -/

/-- The class of every node of the graph waits under its own name. -/
def Queued (s : Solver) : Prop :=
  ∀ n, s.graph.hasNode n = true → s.worklist.contains (s.representative n) = true

/-- An address edge makes no class wait that waits already. -/
theorem worklist_seedEdge {p : NodeId} (h : s.worklist.contains (s.representative p) = true)
    (o : NodeId) : (s.seedEdge o p).worklist = s.worklist := by
  change (s.worklist.push (s.representative p)).1 = s.worklist
  rw [Worklist.push, if_pos h]

theorem Caused.seedEdges (h : s.Queued) (edges : List (NodeId × NodeId)) :
    s.Caused (s.seedEdges edges).1 := by
  induction edges generalizing s with
  | nil => exact .refl s
  | cons e edges ih =>
    obtain ⟨o, p⟩ := e
    unfold Solver.seedEdges
    cases hmissing : s.graph.missing? [o, p] with
    | some n => exact .refl s
    | none =>
      have hp : s.graph.hasNode p = true :=
        ConstraintGraph.missing?_eq_none.mp hmissing p (by simp)
      have hworklist := worklist_seedEdge (h p hp) o
      have hedge : s.Caused (s.seedEdge o p) := by
        simp only [Caused, arrivals, causes]
        rw [hworklist]
        exact Nat.le_refl _
      have hqueued : (s.seedEdge o p).Queued := by
        intro n hn
        rw [hworklist]
        exact h n hn
      exact hedge.trans (ih hqueued)

/-- The address edges were looked at, or every class waits. -/
def Ready (s : Solver) : Prop := s.seeded = true ∨ s.Queued

/-- **Solving makes classes wait for merges alone**, once the address edges make none wait. -/
theorem Caused.solve (hs : s.Coherent) (h : s.Ready) : s.Caused s.solve.1 := by
  by_cases hseeded : s.seeded = true
  · unfold Solver.solve
    rw [if_pos hseeded]
    exact .drain hs _
  · have hseed := Caused.seedEdges (h.resolve_left hseeded) s.addressEdges
    unfold Solver.solve
    rw [if_neg hseeded]
    cases hres : s.seed with
    | mk t outcome =>
      rw [show s.seedEdges s.addressEdges = (t, outcome) from hres] at hseed
      cases outcome with
      | error e => exact hseed
      | ok _ =>
        have hsteps : Steps .analysis s { t with seeded := true } := steps_seed hs hres
        exact Caused.trans (t := { t with seeded := true }) hseed (.drain (hs.steps hsteps) _)

/-! ## Connecting -/

/-- While callees are connected no class comes to wait; each copy that is listed was added. -/
structure Listing (s : Solver) (v : Solver × CopySet) : Prop where
  arrivals : v.1.arrivals = s.arrivals
  causes : s.causes + v.2.size ≤ v.1.causes
  seeded : v.1.seeded = s.seeded
  rounds : v.1.counters.callGraphRounds = s.counters.callGraphRounds

theorem Listing.connectCopy (h : s.Listing v) (a b : NodeId) :
    s.Listing (v.1.connectCopy v.2 a b) := by
  rcases v.1.connectCopy_cases v.2 a b with ⟨heq, -⟩ | ⟨-, -, heq⟩
  · rw [heq]
    exact h
  · rw [heq]
    refine ⟨h.arrivals, ?_, h.seeded, h.rounds⟩
    have hsize := Std.ExtTreeSet.size_insert_le (t := v.2)
      (k := (v.1.representative a, v.1.representative b))
    have hcopies : (v.1.withCopy (v.1.representative a) (v.1.representative b)).causes =
        v.1.causes + 1 := by
      simp [Solver.causes, withCopy, ConstraintGraph.edgeCounts, EdgeTable.size, EdgeTable.add,
        Nat.add_assoc]
    have hcauses := h.causes
    rw [hcopies]
    dsimp only
    omega

theorem Listing.wire (h : s.Listing v) (hw : Wire F A v w) : s.Listing w := by
  cases hw with
  | report e => exact ⟨h.arrivals, h.causes, h.seeded, h.rounds⟩
  | copy _ => exact h.connectCopy _ _
  | memory _ _ _ _ => exact h.connectCopy _ _
  | allocate _ _ _ => exact ⟨h.arrivals, h.causes, h.seeded, h.rounds⟩

theorem size_enqueueAll_le (s : Solver) (nodes : List NodeId) :
    (s.enqueueAll nodes).worklist.size ≤ s.worklist.size + nodes.length := by
  induction nodes generalizing s with
  | nil => exact Nat.le_refl _
  | cons n nodes ih =>
    have hfirst := Worklist.size_push_le s.worklist (s.representative n)
    have hrest := ih (s.enqueue n).1
    change (s.enqueueAll (n :: nodes)).worklist.size ≤
      (s.worklist.push (s.representative n)).1.size + nodes.length at hrest
    rw [List.length_cons]
    omega

/-- **Connecting makes classes wait for copies alone.** The sources of the copies come to wait, each
at most once. -/
theorem Caused.connect (hr : s.Registered) (targets : CallEdges) :
    s.Caused (s.connect targets).1 ∧ (s.connect targets).1.seeded = s.seeded ∧
      (s.connect targets).1.counters.callGraphRounds = s.counters.callGraphRounds := by
  rcases connect_cases hr targets with ⟨e, -, heq⟩ | ⟨pairs, hresolve, heq⟩
  · rw [heq]
    exact ⟨.refl s, rfl, rfl⟩
  · have hlisting := (connectPairs_keeps (r := { solver := s })
      (I := fun r => s.Listing (r.solver, r.added)) (hr.sites_of_resolve hresolve)
      (fun {r site callee} _ h _ => ?_) ⟨rfl, Nat.le_refl _, rfl, rfl⟩).1
    · rw [heq]
      generalize (connectPairs { solver := s } pairs).1 = r at hlisting
      have hsize := size_enqueueAll_le r.solver r.sources
      have hlength : r.sources.length = r.added.size := by
        rw [Round.sources, List.length_map, Std.ExtTreeSet.length_toList]
      have harrivals := hlisting.arrivals
      have hcauses := hlisting.causes
      rw [closeRound_eq]
      refine ⟨?_, ?_, ?_⟩
      · simp only [Caused, Solver.arrivals, Solver.causes] at harrivals hcauses ⊢
        rw [enqueueAll_eq]
        dsimp only
        omega
      · rw [enqueueAll_eq]
        exact hlisting.seeded
      · rw [enqueueAll_eq]
        exact hlisting.rounds
    · have hadded : s.Listing (r.solver.addCallee site callee, r.added) :=
        ⟨h.arrivals, h.causes, h.seeded, h.rounds⟩
      exact (wiring_extend r site callee).keeps (I := s.Listing) (fun hw hv => hv.wire hw) hadded

/-! ## Starting -/

theorem mem_enqueueAll (hv : s.Valid) {nodes : List NodeId} {m : NodeId} :
    m ∈ (s.enqueueAll nodes).worklist.toList ↔
      (∃ n ∈ nodes, s.representative n = m) ∨ m ∈ s.worklist.toList := by
  induction nodes generalizing s with
  | nil => simp [enqueueAll]
  | cons n nodes ih =>
    have hrest := ih (s := (s.enqueue n).1) (hv.enqueue n)
    have hpush : m ∈ (s.enqueue n).1.worklist.toList ↔
        m = s.representative n ∨ m ∈ s.worklist.toList := Worklist.mem_push hv.worklist
    change m ∈ ((s.enqueue n).1.enqueueAll nodes).worklist.toList ↔ _
    rw [hrest, hpush]
    change (∃ k ∈ nodes, s.representative k = m) ∨ _ ↔ _
    simp only [List.mem_cons, exists_eq_or_imp, eq_comm (a := m)]
    rw [or_left_comm, ← or_assoc]

/-- **The bounds on an analysis** that led from the fresh state `s` to `t`: merges are bounded by
nodes, rounds by pairs of a site and a function, and the classes taken from the worklist by the
nodes at the start, the merges and the copies that were added. -/
structure Costs (s t : Solver) : Prop where
  merges : t.counters.merges ≤ t.graph.nodeCount - 1
  rounds : t.counters.callGraphRounds ≤ s.sites.size * s.functions.size
  pops : t.counters.worklistPops ≤
    s.graph.nodeCount + t.counters.merges + (t.graph.edgeCounts.copy - s.graph.edgeCounts.copy)

/-- Where merges and classes do not outnumber the nodes, there is a class that no merge made. -/
theorem merges_le_of_tally (h : t.tally ≤ t.graph.nodeCount) :
    t.counters.merges ≤ t.graph.nodeCount - 1 := by
  unfold tally at h
  by_cases hnone : t.graph.nodeCount = 0
  · omega
  · have hnode : 0 ∈ t.graph.nodeIds := List.mem_range.mpr (Nat.pos_of_ne_zero hnone)
    have hpos := t.classes.countClasses_pos hnode
    omega

end Solver

namespace Analysis

open Solver

variable {σ : Type} {a : Analysis σ} {s t u : Solver}

/-- Starting makes every class wait under its own name. -/
theorem queued_start (hs : s.Coherent) : (start s).Queued := by
  intro n hn
  have hreport := hs.report (.analysisStarted s.graph.nodeCount s.sites.size s.functions.size)
  have hstart := (hs.steps (steps_start (L := .analysis) s)).valid.worklist
  rw [(frame_start s).graph] at hn
  refine hstart.contains_iff.mpr ((mem_enqueueAll hreport.valid).mpr (.inl ⟨n, ?_, ?_⟩))
  · exact ConstraintGraph.mem_nodeIds.mpr hn
  · rw [start_eq, enqueueAll_eq]
    rfl

theorem arrivals_start_le (s : Solver) :
    (start s).arrivals ≤ s.arrivals + s.graph.nodeCount ∧ (start s).causes = s.causes := by
  have hsize := size_enqueueAll_le
    (s.report (.analysisStarted s.graph.nodeCount s.sites.size s.functions.size)) s.graph.nodeIds
  have hlength : s.graph.nodeIds.length = s.graph.nodeCount := List.length_range
  rw [start_eq, enqueueAll_eq]
  refine ⟨?_, rfl⟩
  simp only [arrivals, report] at hsize ⊢
  omega

/-- A round pays for what it makes wait, and leaves a state from which solving does. -/
theorem CallRound.caused {source : TargetSource σ} {new : Bool}
    (h : CallRound source s t u new) (hs : s.Coherent) (hready : s.Ready) :
    s.Caused u ∧ u.Ready ∧ u.counters.callGraphRounds = s.counters.callGraphRounds := by
  obtain ⟨seeded, hframe⟩ := h.frame hs
  have ht := hs.steps (h.steps (L := .analysis) (Licence.le_refl _) hs).1
  obtain ⟨rounds, hsolve⟩ := h.solve
  obtain ⟨memory, hconnect⟩ := h.connect
  have hcoherent := hs.report (.roundStarted rounds)
  have hst : s.Caused t := by
    have hcaused := Caused.solve hcoherent hready
    rw [hsolve] at hcaused
    exact hcaused
  have hseeded := seeded_solve hcoherent (by rw [hsolve])
  rw [hsolve] at hseeded
  obtain ⟨htu, hkept, hrounds⟩ := Caused.connect ht.registered (source.next t memory).1
  rw [hconnect] at htu hkept hrounds
  exact ⟨hst.trans htu, .inl (hkept.trans hseeded), hrounds.trans hframe.rounds⟩

/-- Up to the end of an analysis, every class that came to wait after the start was paid for, and no
round was counted. -/
theorem caused_runRounds {b : Analysis σ} {fuel rounds n : Nat} (hs : a.solver.Coherent)
    (hready : a.solver.Ready) (hfuel : a.solver.unconnected < fuel)
    (hok : a.runRounds fuel rounds = (b, .ok n)) :
    a.solver.Caused b.solver ∧
      b.solver.counters.callGraphRounds = a.solver.counters.callGraphRounds := by
  have hround : ∀ {s t u}, a.solver.Caused s ∧ s.Ready ∧
      s.counters.callGraphRounds = a.solver.counters.callGraphRounds → s.Coherent →
      CallRound a.source s t u true → a.solver.Caused u ∧ u.Ready ∧
        u.counters.callGraphRounds = a.solver.counters.callGraphRounds := by
    rintro s t u ⟨hcaused, hready, hkept⟩ hs hround
    obtain ⟨hcaused', hready', hkept'⟩ := hround.caused hs hready
    exact ⟨hcaused.trans hcaused', hready', hkept'.trans hkept⟩
  rcases runRounds_ends (I := fun s => a.solver.Caused s ∧ s.Ready ∧
      s.counters.callGraphRounds = a.solver.counters.callGraphRounds) hround hs
      ⟨.refl _, hready, rfl⟩ hfuel hok with hlast | hlast
  · obtain ⟨s, t, ⟨hcaused, hready, hkept⟩, hs, hlast⟩ := hlast
    obtain ⟨hcaused', -, hkept'⟩ := hlast.caused hs hready
    exact ⟨hcaused.trans hcaused', hkept'.trans hkept⟩
  · obtain ⟨s, limit, ⟨hcaused, hready, hkept⟩, hs, -, hsolve⟩ := hlast
    have hcaused' := Caused.solve (hs.report (.roundLimitReached limit)) hready
    obtain ⟨seeded, hframe⟩ := frame_solve_report hs (.roundLimitReached limit)
    rw [hsolve] at hcaused' hframe
    exact ⟨hcaused.trans hcaused', hframe.rounds.trans hkept⟩

/-- **What an analysis of a fresh state costs**, if it does not fail. Such a state has merged
nothing and taken nothing, and nothing waits in it. -/
theorem costs_run {p : Problem} (hp : p.Made) (hs : ofProblem p = .ok a.solver)
    (hok : a.run.2 = .ok ()) : a.solver.Costs a.run.1.solver := by
  have hcoherent := coherent_ofProblem hp hs
  have hstart := hcoherent.steps (steps_start (L := .analysis) a.solver)
  have hframe := frame_start a.solver
  obtain ⟨b, rounds, hrounds, hrun⟩ := run_eq_ok hok
  have hfresh : a.solver.arrivals = 0 ∧ a.solver.counters.merges = 0 ∧
      a.solver.counters.callGraphRounds = 0 := by
    obtain ⟨-, -, heq⟩ := ofProblem_eq_ok hs
    rw [heq]
    exact ⟨rfl, rfl, rfl⟩
  have hpairs := unconnected_le (start a.solver)
  obtain ⟨hcaused, hkept⟩ := caused_runRounds (a := { a with solver := start a.solver }) hstart
    (.inr (queued_start hcoherent)) (Nat.lt_succ_of_le hpairs) hrounds
  refine ⟨?_, ?_, ?_⟩
  · have hsteps := steps_run (a := a) (Licence.le_refl .analysis) hcoherent
    exact merges_le_of_tally (tally_le_of_steps (tallied_ofProblem hs).le hcoherent hsteps)
  · have hcount := runRounds_le (a := { a with solver := start a.solver }) hstart hrounds
    rw [pairBound, hframe.sites, hframe.functions] at hpairs
    rw [hrun]
    change b.solver.counters.callGraphRounds + rounds ≤ _
    have hzero := hkept.trans (hframe.rounds.trans hfresh.2.2)
    dsimp only at hcount
    omega
  · obtain ⟨harrivals, hcauses⟩ := arrivals_start_le a.solver
    rw [hrun]
    change b.solver.counters.worklistPops ≤ a.solver.graph.nodeCount +
      b.solver.counters.merges + (b.solver.graph.edgeCounts.copy - a.solver.graph.edgeCounts.copy)
    have hpops : b.solver.counters.worklistPops ≤ b.solver.arrivals := Nat.le_add_right _ _
    have hmerges : a.solver.causes = a.solver.graph.edgeCounts.copy := by
      rw [causes, hfresh.2.1, Nat.zero_add]
    have hend : b.solver.causes = b.solver.counters.merges + b.solver.graph.edgeCounts.copy := rfl
    unfold Caused at hcaused
    dsimp only at hcaused
    omega

end Analysis

open Solver

variable {p : Problem} {s : Solver}

/-- **Solving and analysing terminate.** From every state that a history of operations led to, and
whatever source of call targets is asked, both loops come to their end without a bound on their
steps: each pop merges nothing and makes nothing wait or leaves fewer classes, and each round that
is followed by another connects a new pair. From a fresh state an analysis that does not fail keeps
to the bounds on its merges, its rounds and its pops. -/
theorem terminates_of_reachable (hp : p.Made) (hs : Reachable .any p s) {σ : Type}
    (source : TargetSource σ) (memory : σ) :
    Solves s s.solve ∧
      Analysis.Runs ⟨s, source, memory⟩ (Analysis.run ⟨s, source, memory⟩) ∧
      (ofProblem p = .ok s → (Analysis.run ⟨s, source, memory⟩).2 = .ok () →
        s.Costs (Analysis.run ⟨s, source, memory⟩).1.solver) := by
  have hcoherent := hs.coherent hp
  refine ⟨solves_solve hcoherent, Analysis.runs_run hcoherent, fun hfresh hok => ?_⟩
  exact Analysis.costs_run (a := ⟨s, source, memory⟩) hp hfresh hok

theorem terminates_sample :
    Solves sampleHistory sampleHistory.solve ∧
      Analysis.Runs ⟨sampleSolver, .builtin, ()⟩ (Analysis.run ⟨sampleSolver, .builtin, ()⟩) ∧
      sampleSolver.Costs (Analysis.run ⟨sampleSolver, .builtin, ()⟩).1.solver := by
  have hhistory := terminates_of_reachable sampleProblem_made reachable_sampleHistory .builtin ()
  obtain ⟨-, hruns, hcosts⟩ := terminates_of_reachable sampleProblem_made
    (.start ofProblem_sampleProblem) .builtin ()
  exact ⟨hhistory.1, hruns, hcosts ofProblem_sampleProblem (by decide +kernel)⟩

end PointsTo
