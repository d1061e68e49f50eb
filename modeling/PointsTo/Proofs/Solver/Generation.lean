import PointsTo.Proofs.Reachable

/-!
# What the solver leaves to the session

The number of an analysis is given by the session that holds it, and so is the refusal to answer
without one. No operation of the solver changes the number or answers with that refusal, whatever
the state it starts from: nothing here asks for a state that a history leads to.

## Main definitions

* `Solver.Serves`: a result that keeps the generation and is not that refusal

## Main results

* `serves_solve`, `serves_connect`, `serves_run`: the operations that may fail
* `Operation.generation_apply`: every operation keeps the generation
-/

namespace PointsTo

namespace Solver

variable {α β : Type} {s t : Solver} {R F : NodeId → NodeId → Prop} {A : SiteId → Prop}
  {u v : Solver × CopySet} {rep : NodeId}

/-- **What an operation on `s` may result in**: the generation stays, and nobody is told that no
analysis is live. -/
structure Serves (s : Solver) (r : Solver × Except AnalysisError α) : Prop where
  generation : r.1.generation = s.generation
  initialized : r.2 ≠ .error .notInitialized

/-- A result of a state with the same generation. -/
theorem Serves.of_generation {r : Solver × Except AnalysisError α} (h : t.Serves r)
    (ht : t.generation = s.generation) : s.Serves r :=
  ⟨h.generation.trans ht, h.initialized⟩

/-- An error is handed on by a caller that answers something else. -/
theorem Serves.error {e : AnalysisError} (h : s.Serves (t, (.error e : Except AnalysisError α))) :
    s.Serves (t, (.error e : Except AnalysisError β)) :=
  ⟨h.generation, fun he => h.initialized (congrArg Except.error (Except.error.inj he))⟩

/-- The answer of a result may be replaced, its error stays. -/
theorem Serves.map {r : Solver × Except AnalysisError α} (h : s.Serves r) (f : α → β) :
    s.Serves (r.1, r.2.map f) := by
  obtain ⟨t, outcome⟩ := r
  cases outcome with
  | error e => exact h.error
  | ok a => exact ⟨h.generation, nofun⟩

/-! ## Merging classes -/

theorem generation_loadEdges (s : Solver) (n : NodeId) :
    (s.loadEdges n).generation = s.generation := by
  rw [loadEdges_eq]

theorem generation_join (s : Solver) (lost survivor : NodeId) :
    (s.join lost survivor).generation = s.generation := by
  rw [join_eq]

theorem generation_unify (s : Solver) (a b : NodeId) :
    (s.unify a b).1.generation = s.generation := by
  rcases s.unify_cases a b with ⟨-, heq⟩ | ⟨lost, survivor, -, heq⟩
  · rw [heq]
  · rw [heq]
    exact generation_join s lost survivor

theorem generation_mergeInto (s : Solver) (n m : NodeId) :
    (s.mergeInto n m).1.generation = s.generation := by
  rcases s.mergeInto_cases n m with ⟨-, heq⟩ | ⟨-, heq⟩
  · rw [heq]
  · rw [heq]
    exact generation_join s ..

theorem Joins.generation (h : Joins R s t) : t.generation = s.generation := by
  induction h with
  | refl => rfl
  | tail _ _ _ ih => exact (generation_unify _ _ _).trans ih

/-! ## The drain -/

theorem serves_seedEdges (s : Solver) (edges : List (NodeId × NodeId)) :
    s.Serves (s.seedEdges edges) := by
  induction edges generalizing s with
  | nil => exact ⟨rfl, nofun⟩
  | cons edge edges ih =>
    obtain ⟨object, pointer⟩ := edge
    unfold seedEdges
    split
    · exact ⟨rfl, nofun⟩
    · exact (ih (s.seedEdge object pointer)).of_generation rfl

/-- Both refusals name a node; the rest is unification after the constraints were loaded. -/
theorem serves_treat (s : Solver) (rep : NodeId) : s.Serves (s.treat rep) := by
  have hload := generation_loadEdges s rep
  unfold treat
  split
  · exact ⟨rfl, nofun⟩
  dsimp only
  split
  · exact ⟨hload, nofun⟩
  split
  · exact ⟨hload, nofun⟩
  · exact ⟨(joins_applyEdges ..).generation.trans hload, nofun⟩

theorem generation_of_dequeue? (h : s.dequeue? = some (rep, t)) : t.generation = s.generation := by
  obtain ⟨m, worklist, -, -, rfl⟩ := dequeue?_cases h
  rfl

theorem serves_drain (steps : Nat) (s : Solver) : s.Serves (drain steps s) := by
  induction steps generalizing s with
  | zero => exact ⟨rfl, nofun⟩
  | succ steps ih =>
    unfold drain
    split
    · exact ⟨rfl, nofun⟩
    · rename_i rep t hpop
      have hpopped : t.generation = s.generation := generation_of_dequeue? hpop
      have htreat : s.Serves (t.countPop.treat rep) := (serves_treat _ rep).of_generation hpopped
      split
      · rename_i u e heq
        rw [heq] at htreat
        exact htreat
      · rename_i u heq
        rw [heq] at htreat
        exact (ih u).of_generation htreat.generation

/-- **Solving** keeps the generation. -/
theorem serves_solve (s : Solver) : s.Serves s.solve := by
  unfold solve
  split
  · exact serves_drain _ s
  have hseed : s.Serves s.seed := serves_seedEdges s s.addressEdges
  split
  · rename_i t e heq
    rw [heq] at hseed
    exact hseed
  · rename_i t heq
    rw [heq] at hseed
    exact (serves_drain _ _).of_generation hseed.generation

/-! ## Connecting callees -/

theorem generation_connectCopy (s : Solver) (added : CopySet) (a b : NodeId) :
    (s.connectCopy added a b).1.generation = s.generation := by
  rcases s.connectCopy_cases added a b with ⟨heq, -⟩ | ⟨-, -, heq⟩ <;> rw [heq]
  rfl

theorem Wiring.generation (h : Wiring F A u v) : v.1.generation = u.1.generation := by
  induction h with
  | refl => rfl
  | tail _ hwire ih =>
    refine Eq.trans ?_ ih
    cases hwire with
    | report e => rfl
    | copy hab => exact generation_connectCopy ..
    | memory hi hsite hret hmade => exact generation_connectCopy ..
    | allocate hi hsite hmade => rfl

theorem serves_allocate (s : Solver) (added : CopySet) (i : SiteId) :
    s.Serves ((s.allocate added i).1.1, (s.allocate added i).2) := by
  refine ⟨(wiring_allocate (F := fun _ _ => True) s added i).generation, ?_⟩
  unfold allocate
  split <;> nofun

/-- Of all that a callee is connected by, only the memory of the site can be refused. -/
theorem serves_connectCall (s : Solver) (added : CopySet) (site : CallSite)
    (callee : FunctionDecl) :
    s.Serves ((s.connectCall added site callee).1.1, (s.connectCall added site callee).2) := by
  refine ⟨(wiring_connectCall s added site callee).generation, ?_⟩
  have hmemory := serves_allocate s added site.id
  unfold connectCall
  split
  · split
    · rename_i reached e heq
      rw [heq] at hmemory
      exact hmemory.error.initialized
    · nofun
  · nofun

theorem serves_connectPair (r : Round) (site : CallSite) (callee : FunctionDecl) :
    r.solver.Serves ((connectPair r site callee).1.solver, (connectPair r site callee).2) := by
  unfold connectPair
  split
  · exact ⟨rfl, nofun⟩
  · rename_i calls _
    dsimp only
    split
    · exact ⟨(wiring_connectFork (A := fun _ => False) _ r.added site callee).generation, nofun⟩
    · exact (serves_connectCall _ r.added site callee).of_generation rfl

theorem serves_connectPairs (r : Round) (pairs : List (CallSite × FunctionDecl)) :
    r.solver.Serves ((connectPairs r pairs).1.solver, (connectPairs r pairs).2) := by
  induction pairs generalizing r with
  | nil => exact ⟨rfl, nofun⟩
  | cons pair pairs ih =>
    obtain ⟨site, callee⟩ := pair
    have hpair := serves_connectPair r site callee
    unfold connectPairs
    split
    · rename_i r' e heq
      rw [heq] at hpair
      exact hpair
    · rename_i r' heq
      rw [heq] at hpair
      exact (ih r').of_generation hpair.generation

theorem generation_closeRound (r : Round) : (closeRound r).generation = r.solver.generation := by
  rw [closeRound_eq, enqueueAll_eq]

/-- **Connecting the callees of a round** keeps the generation. Only names that are not registered
are refused here. -/
theorem serves_connect (s : Solver) (targets : CallEdges) : s.Serves (s.connect targets) := by
  unfold connect
  split
  · rename_i e herror
    refine ⟨rfl, ?_⟩
    obtain ⟨entry, -, ⟨-, rfl⟩ | ⟨f, -, -, rfl⟩⟩ := resolve_eq_error herror <;> nofun
  · rename_i pairs _
    have hpairs := serves_connectPairs { solver := s } pairs
    split
    · rename_i r e heq
      rw [heq] at hpairs
      exact hpairs.error
    · rename_i r heq
      rw [heq] at hpairs
      exact ⟨(generation_closeRound r).trans hpairs.generation, nofun⟩

end Solver

/-! ## Running -/

namespace Analysis

open Solver

variable {σ : Type}

theorem serves_stopAtLimit (a : Analysis σ) (limit rounds : Nat) :
    a.solver.Serves ((a.stopAtLimit limit rounds).1.solver, (a.stopAtLimit limit rounds).2) :=
  ((serves_solve (a.solver.report (.roundLimitReached limit))).map _).of_generation rfl

theorem serves_runRounds (a : Analysis σ) (fuel rounds : Nat) :
    a.solver.Serves ((a.runRounds fuel rounds).1.solver, (a.runRounds fuel rounds).2) := by
  induction fuel generalizing a rounds with
  | zero => exact ⟨rfl, nofun⟩
  | succ fuel ih =>
    have hsolve : a.solver.Serves (a.solver.report (.roundStarted rounds)).solve :=
      (serves_solve _).of_generation rfl
    rcases a.runRounds_succ fuel rounds with
      ⟨t, e, hfail, heq⟩ | ⟨t, memory, hsolved, hrest⟩
    · rw [heq]
      rw [hfail] at hsolve
      exact hsolve.error
    rw [hsolved] at hsolve
    have hconnect : a.solver.Serves (t.connect (a.source.next t a.memory).1) :=
      (serves_connect t _).of_generation hsolve.generation
    rcases hrest with ⟨u, e, hfail, heq⟩ | ⟨u, hlast, heq⟩ | ⟨u, hnew, ⟨limit, -, heq⟩ | heq⟩
    · rw [heq]
      rw [hfail] at hconnect
      exact hconnect.error
    · rw [heq]
      rw [hlast] at hconnect
      exact ⟨hconnect.generation, nofun⟩
    · rw [heq]
      rw [hnew] at hconnect
      exact (serves_stopAtLimit _ limit (rounds + 1)).of_generation hconnect.generation
    · rw [heq]
      rw [hnew] at hconnect
      exact (ih _ (rounds + 1)).of_generation hconnect.generation

theorem generation_start (s : Solver) : (start s).generation = s.generation := by
  rw [start_eq, enqueueAll_eq]
  rfl

/-- **A run** keeps the generation, and never says that no analysis is live. -/
theorem serves_run (a : Analysis σ) : a.solver.Serves (a.run.1.solver, a.run.2) := by
  have hrounds : ∀ fuel, a.solver.Serves
      (({ a with solver := start a.solver }.runRounds fuel 0).1.solver,
        ({ a with solver := start a.solver }.runRounds fuel 0).2) := fun fuel =>
    (serves_runRounds _ fuel 0).of_generation (generation_start a.solver)
  unfold run
  dsimp only
  split
  · rename_i b e heq
    have hfail := hrounds ((start a.solver).pairBound + 1)
    rw [heq] at hfail
    exact hfail.error
  · rename_i b rounds heq
    have hdone := hrounds ((start a.solver).pairBound + 1)
    rw [heq] at hdone
    exact ⟨hdone.generation, nofun⟩

end Analysis

/-! ## All operations -/

open Solver

theorem Solver.Hand.generation_apply (op : Hand) (s : Solver) :
    (op.apply s).generation = s.generation := by
  cases op with
  | addObject n o => rfl
  | addObjects n objects => rfl
  | addObjectsOf n m => rfl
  | mergeInto n m => exact generation_mergeInto s n m
  | unify a b => exact generation_unify s a b
  | subsume n sub => rfl
  | enqueue n => rfl
  | dequeue =>
    rw [Hand.apply]
    cases hpop : s.dequeue? with
    | none => rfl
    | some popped => exact generation_of_dequeue? hpop

/-- **Every operation keeps the generation.** -/
theorem Operation.generation_apply (op : Operation) (s : Solver) :
    (op.apply s).generation = s.generation := by
  cases op with
  | hand op => exact op.generation_apply s
  | enqueueNodes =>
    change (s.enqueueAll s.graph.nodeIds).generation = s.generation
    rw [enqueueAll_eq]
  | seed => exact (serves_seedEdges s s.addressEdges).generation
  | solve => exact (serves_solve s).generation
  | analyze source memory => exact (Analysis.serves_run ⟨s, source, memory⟩).generation
  | connect targets => exact (serves_connect s targets).generation
  | connectCall added site callee => exact (serves_connectCall s added site callee).generation
  | connectFork added site callee =>
    exact (wiring_connectFork (A := fun _ => False) s added site callee).generation
  | allocate added i => exact (serves_allocate s added i).generation

end PointsTo
