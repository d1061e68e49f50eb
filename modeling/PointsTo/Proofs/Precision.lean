import PointsTo.Proofs.Least
import PointsTo.Proofs.Resolution

/-!
# Precision

The analysis of a problem computes the least solution: classes, points-to sets and callees that it
finds are found by every solution that obeys the constraints of the problem and the rules of its
calls. No bound on the rounds is asked for; with one, the analysis may stop below that solution.

The rules of calls speak of the memory of a site, which exists only once the analysis has made it,
so they are stated for the memory that a run has handed out. A solution that knows of more memory
than a state has made is a solution for the state too, and this carries the comparison through the
rounds.

## Main definitions

* `Solution.ObeysCalls`: the rules of calls
* `Solver.Justified`: memory is made for connected callees only
* `Solver.Sourced`: every solution has the callees that are connected
* `Solver.Precise`: what every round keeps

## Main results

* `Precise.above`: a state with its callees is below every solution
* `Precise.round`: a round connects only what every solution has
* `above_analyze`: the analysis computes the least solution
* `solution_analyze`: without a bound on the rounds its result is a solution
-/

namespace PointsTo

open Solver

/-- **The rules of calls**: an object of a function in the set of a function pointer makes the
function a callee; what a callee makes flow together is equated; and a callee that allocates makes
the value of the site point to its object and, if there is one, equates it with the result. -/
structure Solution.ObeysCalls (u : Solution) (s : Solver) (calls : SiteId → FunctionId → Prop)
    (memory : SiteId → Option Allocation) : Prop where
  target : ∀ {i site o callee}, s.sites[i]? = some site → u.pointsTo site.funPtr o →
    s.functions.forObject? o = some callee → calls i callee.id
  flow : ∀ {i f site callee a b}, s.sites[i]? = some site → s.functions.get? f = some callee →
    calls i f → CallFlow s.settings site callee a b → u.same a b
  object : ∀ {i f site callee m}, s.sites[i]? = some site → s.functions.get? f = some callee →
    calls i f → site.kind = .call → Allocates s.settings callee → memory i = some m →
    u.pointsTo m.value m.object
  value : ∀ {i f site callee m r}, s.sites[i]? = some site → s.functions.get? f = some callee →
    calls i f → site.kind = .call → Allocates s.settings callee → memory i = some m →
    site.ret = some r → u.same m.value r

namespace Solver

variable {base s t : Solver} {L : Licence} {i : SiteId} {m : Allocation}

/-! ## Memory -/

/-- Memory is kept from before, or allowed. -/
theorem allocation?_step (hv : s.Valid) (h : Step L s t) (hm : t.allocation? i = some m) :
    s.allocation? i = some m ∨ L.allocate s i := by
  cases h with
  | note _ => exact .inl hm
  | hand op _ => exact .inl ((congrArg (·[i]?) (op.frame s).allocations).symm.trans hm)
  | address _ _ _ => exact .inl hm
  | seeded _ => exact .inl hm
  | wait _ => exact .inl hm
  | pop hd =>
    obtain ⟨_, _, -, -, rfl⟩ := dequeue?_cases hd
    exact .inl hm
  | treat hr => exact .inl ((congrArg (·[i]?) (Frame.treat hv hr).allocations).symm.trans hm)
  | callee _ _ _ => exact .inl hm
  | wiring hw _ hA => exact (allocation?_wiring hw hm).imp_right (hA i)
  | record _ => exact .inl hm

/-- **Memory is made for connected callees only**, those of calls that allocate. -/
def Justified (s : Solver) : Prop :=
  ∀ i m, s.allocation? i = some m → ∃ site callee, s.Connected site callee ∧
    MemorySite s.settings site callee i

/-- Memory that a step of an analysis makes was allowed by a connected callee. -/
theorem Justified.step (h : s.Justified) (hs : s.Coherent) (hstep : Step .analysis s t) :
    t.Justified := by
  have hgrows := hstep.grows hs.valid hs.registered.calls
  intro i m hm
  have hmade : Licence.analysis.allocate s i := by
    rcases allocation?_step hs.valid hstep hm with hm | hmade
    · exact h i m hm
    · exact hmade
  obtain ⟨site, callee, hconn, hsite⟩ := hmade
  exact ⟨site, callee, hconn.mono hgrows, hgrows.settings ▸ hsite⟩

theorem Justified.steps (h : s.Justified) (hs : s.Coherent) (hsteps : Steps .analysis s t) :
    t.Justified :=
  hsteps.keeps hs (fun hs hstep hjustified => hjustified.step hs hstep) h

/-! ## Callees -/

/-- **Every solution has the callees that are connected**, if it knows of the memory made so far. -/
def Sourced (base s : Solver) : Prop :=
  ∀ {u : Solution} {calls memory}, u.Obeys base.graph → u.ObeysCalls base calls memory →
    (∀ {i m}, s.allocation? i = some m → memory i = some m) →
    ∀ {i f}, s.calls.hasEdge i f = true → calls i f

/-- What every round keeps: the state holds only what is forced, and so do its memory and its
callees. -/
structure Precise (base s : Solver) : Prop where
  minimal : Minimal base s
  justified : s.Justified
  sourced : Sourced base s

end Solver

/-! ## Runs -/

namespace Solver.Precise

variable {base s t v : Solver} {u : Solution} {σ : Type}

/-- **A state with its callees is below every solution.** A connected callee is one of the solution,
under the same names. -/
theorem above {calls : SiteId → FunctionId → Prop} {memory : SiteId → Option Allocation}
    (h : Precise base s) (hu : u.Obeys base.graph) (hcalls : u.ObeysCalls base calls memory)
    (hmemory : ∀ {i m}, s.allocation? i = some m → memory i = some m) : u.Above s := by
  have hg := h.minimal.grows
  have hknown : ∀ {site callee}, s.Connected site callee → base.sites[site.id]? = some site ∧
      base.functions.get? callee.id = some callee ∧ calls site.id callee.id := fun hconn =>
    ⟨hg.sites ▸ hconn.registered, hg.functions ▸ hconn.declared,
      h.sourced hu hcalls hmemory hconn.edge⟩
  refine h.minimal.least u
    ⟨hu, fun hconn hflow => ?_, fun hm => ?_, fun {i m site r} hm hsite hr => ?_⟩
  · obtain ⟨hsite, hcallee, hcall⟩ := hknown hconn
    exact hcalls.flow hsite hcallee hcall (hg.settings ▸ hflow)
  · obtain ⟨site, callee, hconn, rfl, hkind, halloc⟩ := h.justified _ _ hm
    obtain ⟨hsite, hcallee, hcall⟩ := hknown hconn
    exact hcalls.object hsite hcallee hcall hkind (hg.settings ▸ halloc) (hmemory hm)
  · obtain ⟨site', callee, hconn, rfl, hkind, halloc⟩ := h.justified _ _ hm
    obtain ⟨hsite', hcallee, hcall⟩ := hknown hconn
    obtain rfl : site' = site := Option.some.inj (hconn.registered.symm.trans hsite)
    exact hcalls.value hsite' hcallee hcall hkind (hg.settings ▸ halloc) (hmemory hm) hr

theorem steps (h : Precise base s) (hsteps : Steps .analysis s t)
    (hcalls : ∀ {i f}, t.calls.hasEdge i f = true → s.calls.hasEdge i f = true) :
    Precise base t := by
  have hgrows := hsteps.grows h.minimal.coherent
  refine ⟨h.minimal.steps hsteps, h.justified.steps h.minimal.coherent hsteps, ?_⟩
  intro u calls memory hu hobeys hmemory i f hedge
  exact h.sourced hu hobeys (fun hm => hmemory (hgrows.allocations hm)) (hcalls hedge)

/-- **A round connects only what every solution has.** A callee was shown by a set that the solution
is above. -/
theorem round {new : Bool} (h : Precise base s)
    (hround : Analysis.CallRound (σ := σ) .builtin s t v new) :
    Precise base t ∧ Precise base v := by
  have hs := h.minimal.coherent
  obtain ⟨hst, htv⟩ := hround.steps (Licence.le_refl _) hs
  obtain ⟨seeded, hframe⟩ := hround.frame hs
  have ht : Precise base t := h.steps hst fun hedge => hframe.calls ▸ hedge
  have hgrows := htv.grows ht.minimal.coherent
  refine ⟨ht, ht.minimal.steps htv, ht.justified.steps ht.minimal.coherent htv, ?_⟩
  intro u calls memory hu hobeys hmemory i f hedge
  have hmade : ∀ {i m}, t.allocation? i = some m → memory i = some m := fun hm =>
    hmemory (hgrows.allocations hm)
  obtain ⟨_, hconnect⟩ := hround.connect
  rcases (hasEdge_connect_newTargets ht.minimal.coherent.registered hconnect).mp hedge with
    ⟨site, o, callee, hsite, ho, hcallee, rfl⟩ | hedge
  · have habove := ht.above hu hobeys hmade
    have hbase := ht.minimal.grows
    exact hobeys.target (hbase.sites ▸ hsite) (habove.pointsTo ho) (hbase.functions ▸ hcallee)
  · exact ht.sourced hu hobeys hmade hedge

/-- A run keeps what every round keeps. -/
theorem run {memory : σ} (h : Precise base s)
    (hok : (Analysis.run ⟨s, .builtin, memory⟩).2 = .ok ()) :
    Precise base (Analysis.run ⟨s, .builtin, memory⟩).1.solver := by
  refine Analysis.run_ends (I := Precise base) (fun h _ hsteps hcalls => ?_)
    (fun h _ hround => (h.round hround).2) h.minimal.coherent h hok
  exact h.steps hsteps fun hedge => hcalls ▸ hedge

end Solver.Precise

variable {p : Problem} {s : Solver}

theorem precise_ofProblem (hp : p.Plain) (h : ofProblem p = .ok s) : Precise s s := by
  refine ⟨minimal_ofProblem hp h, fun i m hm => ?_, fun {u calls memory} _ _ _ i f hedge => ?_⟩
  · rw [allocation?_ofProblem h] at hm
    cases hm
  · exact absurd hedge (not_hasEdge_ofProblem h)

/-! ## The result as a solution -/

namespace Solver

variable {base t : Solver}

theorem Closed.obeys (h : t.Closed) (hst : base.Grows t) : t.solution.Obeys base.graph := by
  have hown : t.solution.Obeys t.graph :=
    ⟨h.addr, h.copy, h.gep, fun he ho => h.load he _ ho, fun he ho => (h.store he _ ho).symm⟩
  exact hown.anti fun k x y he => hst.hasEdge he

/-- **A closed state that honours its calls meets its own demands.** -/
theorem Honoured.meets (h : t.Honoured) (hclosed : t.Closed) (hst : base.Grows t) :
    t.solution.Meets base.graph t := by
  refine ⟨hclosed.obeys hst, fun hc hflow => ?_, fun hm => ?_, fun hm hsite hr => ?_⟩
  · exact (h.served hclosed hc).flow hflow
  · exact (h.furnished _ _ hm).object
  · exact ((h.furnished _ _ hm).value hsite hr).same_of_copies hclosed.copy

/-- With all callees connected that its sets show, it obeys the rules of calls. -/
theorem Honoured.obeysCalls (h : t.Honoured) (hclosed : t.Closed) (hr : t.Registered)
    (hst : base.Grows t) (hshown : ∀ {i f}, t.Shows i f → t.calls.hasEdge i f = true) :
    t.solution.ObeysCalls base (fun i f => t.calls.hasEdge i f = true) t.allocation? := by
  have hmeets := h.meets hclosed hst
  refine ⟨fun hsite ho hcallee => ?_, fun {i f site callee a b} hsite hcallee hedge hflow => ?_,
    fun _ _ _ _ _ hm => hmeets.object hm, fun hsite _ _ _ _ hm hr => ?_⟩
  · exact hshown ⟨_, _, _, hst.sites ▸ hsite, ho, hst.functions ▸ hcallee, rfl⟩
  · rw [← hst.sites] at hsite
    rw [← hst.functions] at hcallee
    rw [← hst.settings] at hflow
    obtain rfl := hr.sites hsite
    obtain rfl := hr.functions f callee hcallee
    exact hmeets.flow ⟨hsite, hcallee, hedge⟩ hflow
  · exact hmeets.value hm (hst.sites ▸ hsite) hr

end Solver

/-- **The result is a solution** when the rounds are not bounded, and so it is the least one. -/
theorem solution_analyze (hp : p.Plain) (hs : ofProblem p = .ok s)
    (hrounds : s.settings.maxCallGraphRounds = none) (hok : s.analyze.2 = .ok ()) :
    s.analyze.1.solution.Obeys s.graph ∧
      s.analyze.1.solution.ObeysCalls s (fun i f => s.analyze.1.calls.hasEdge i f = true)
        s.analyze.1.allocation? := by
  have hcoherent := coherent_ofProblem hp.made hs
  have hend := finished_analyze hcoherent (contained_ofProblem hp.contained hs)
    (honoured_ofProblem hs) hok
  exact ⟨hend.closed.obeys hend.grows, hend.honoured.obeysCalls hend.closed hend.coherent.registered
    hend.grows (hasEdge_of_shows_run hcoherent hrounds hok)⟩

/-- **The analysis computes the least solution.** Classes, points-to sets and callees that it finds
are found by every solution that obeys the constraints of the graph and the rules of calls. A
solution knows of all memory made, so it meets whatever the result asks for. -/
theorem above_analyze (hp : p.Plain) (hs : ofProblem p = .ok s) (hok : s.analyze.2 = .ok ())
    (u : Solution) (calls : SiteId → FunctionId → Prop) (hu : u.Obeys p.graph)
    (hcalls : u.ObeysCalls s calls s.analyze.1.allocation?) :
    (∀ x y, s.analyze.1.representative x = s.analyze.1.representative y → u.same x y) ∧
    (∀ x o, o ∈ s.analyze.1.pointsTo x → u.pointsTo x o) ∧
    ∀ i f, s.analyze.1.calls.hasEdge i f = true → calls i f := by
  have hrun : Precise s s.analyze.1 := (precise_ofProblem hp hs).run hok
  have hgraph : u.Obeys s.graph := by
    obtain ⟨-, -, rfl⟩ := ofProblem_eq_ok hs
    exact hu
  have habove := hrun.above hgraph hcalls id
  exact ⟨fun x y => habove.same, fun x o => habove.pointsTo,
    fun i f => hrun.sourced hgraph hcalls id⟩

/-- The graph of the sample with one more copy, between two of the classes found. -/
def sampleGraphCoarse : ConstraintGraph := (sampleGraph.insertAll [.copy 8 11]).1

/-- The solver of the sample with this graph. -/
def sampleSolverCoarse : Solver := { sampleSolver with graph := sampleGraphCoarse }

/-- What the analysis finds for the sample it finds with one more copy too, and then more. -/
theorem above_analyze_sample :
    (∀ x y, sampleSolver.analyze.1.representative x = sampleSolver.analyze.1.representative y →
      sampleSolverCoarse.analyze.1.solution.same x y) ∧
    (∀ x o, o ∈ sampleSolver.analyze.1.pointsTo x →
      sampleSolverCoarse.analyze.1.solution.pointsTo x o) ∧
    (∀ i f, sampleSolver.analyze.1.calls.hasEdge i f = true →
      sampleSolverCoarse.analyze.1.calls.hasEdge i f = true) ∧
    sampleSolver.analyze.1.representative 8 ≠ sampleSolver.analyze.1.representative 11 ∧
    sampleSolverCoarse.analyze.1.representative 8 =
      sampleSolverCoarse.analyze.1.representative 11 := by
  have hplain : Problem.Plain { sampleProblem with graph := sampleGraphCoarse } :=
    ⟨⟨.insertAll _ sampleProblem_made.graph, [sampleFunction], rfl⟩, rfl, rfl⟩
  have hcoarse : ofProblem { sampleProblem with graph := sampleGraphCoarse } =
      .ok sampleSolverCoarse := rfl
  obtain ⟨hobeys, hcalls⟩ := solution_analyze hplain hcoarse rfl (by decide +kernel)
  have hinsert : sampleGraph.insertAll [.copy 8 11] = (sampleGraphCoarse, .ok 1) := rfl
  have hmade : sampleSolverCoarse.analyze.1.allocations = sampleSolver.analyze.1.allocations := by
    decide +kernel
  have hknown : sampleSolverCoarse.analyze.1.allocation? = sampleSolver.analyze.1.allocation? :=
    funext fun i => congrArg (·[i]?) hmade
  rw [hknown] at hcalls
  have hbelow := above_analyze sampleProblem_plain ofProblem_sampleProblem (by decide +kernel)
    sampleSolverCoarse.analyze.1.solution
    (fun i f => sampleSolverCoarse.analyze.1.calls.hasEdge i f = true)
    (hobeys.anti fun k x y he => (ConstraintGraph.hasEdge_insertAll hinsert).mpr (.inl he))
    ⟨hcalls.target, hcalls.flow, hcalls.object, hcalls.value⟩
  exact ⟨hbelow.1, hbelow.2.1, hbelow.2.2, by decide +kernel, by decide +kernel⟩

end PointsTo
