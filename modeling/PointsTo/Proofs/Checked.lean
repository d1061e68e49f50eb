import PointsTo.Proofs.Resolution
import PointsTo.Proofs.Totality

/-!
# Nothing is refused in silence

A copy between nodes that the graph does not have is not added, and nobody is told: where callees
are connected, such a copy looks like one that the graph holds already. Here each function that
connects callees gets a checked form, which stops at such a copy with an error. On a state that
keeps to its graph the two forms agree, so that no copy was ever left out.

The checked forms follow the plain ones line by line. They differ in `Checked.connectCopy` alone.

## Main definitions

* `Solver.Checked.connectCopy`: a copy whose ends have to be represented in the graph
* `Solver.Checked.connectCall`, `Solver.Checked.connectFork`, `Solver.Checked.allocate`,
  `Solver.Checked.connect`, `Solver.Checked.analyze`: what adds copies, by checked copies
* `Solver.Enclosed`: a state that keeps to its graph, and has no address edge from outside

## Main results

* `Checked.connectCall_eq`, `Checked.connectFork_eq`, `Checked.allocate_eq`, `Checked.connect_eq`,
  `Checked.analyze_eq`: the two forms agree
* `infallible_of_reachable`: what does not fail after operations that name nodes of the graph
-/

namespace PointsTo

namespace Solver

/-! ## Checked copies -/

namespace Checked

/-- Adds a copy between the classes of two nodes; both have to be represented in the graph. -/
def connectCopy (s : Solver) (added : CopySet) (src dst : NodeId) :
    Except AnalysisError (Solver × CopySet) :=
  match s.graph.missing? [s.representative src, s.representative dst] with
  | some n => .error (.unknownNode n)
  | none => .ok (s.connectCopy added src dst)

/-- Adds copies in order. -/
def connectCopies (s : Solver) (added : CopySet) :
    List (NodeId × NodeId) → Except AnalysisError (Solver × CopySet)
  | [] => .ok (s, added)
  | (src, dst) :: rest => do
    let reached ← connectCopy s added src dst
    connectCopies reached.1 reached.2 rest

/-- The memory of a site, which flows into the result of the call. -/
def allocate (s : Solver) (added : CopySet) (site : SiteId) :
    Except AnalysisError ((Solver × CopySet) × Allocation) :=
  match s.sites[site]? with
  | none => .error (.unknownCallSite site)
  | some registered => do
    let created := match s.allocation? site with
      | some made => (s, made)
      | none => s.createAllocation site
    let reached ←
      connectCopies created.1 added (registered.ret.toList.map (created.2.value, ·))
    return (reached, created.2)

/-- The arguments beyond the parameters flow into the variadic node. -/
def connectSurplus (s : Solver) (added : CopySet) (site : CallSite) (callee : FunctionDecl) :
    Except AnalysisError (Solver × CopySet) :=
  match surplusArgs site callee, callee.vararg with
  | [], _ => .ok (s, added)
  | surplus, some vararg =>
    if s.settings.connectVarargs then connectCopies s added (surplus.map (·, vararg))
    else .ok (s.report (.varargIgnored site.id callee.name), added)
  | surplus, none => .ok (s.report (.argumentsSurplus site.id callee.name surplus.length), added)

/-- The copies of one callee of a call, the memory of the site apart. -/
def connectParameters (s : Solver) (added : CopySet) (site : CallSite) (callee : FunctionDecl) :
    Except AnalysisError (Solver × CopySet) := do
  let results ← connectCopies s added (resultCopies site callee)
  let arguments ← connectCopies (results.1.reportMissing site callee) results.2
    (argumentCopies site callee)
  connectSurplus arguments.1 arguments.2 site callee

/-- Connects one callee of a call. -/
def connectCall (s : Solver) (added : CopySet) (site : CallSite) (callee : FunctionDecl) :
    Except AnalysisError (Solver × CopySet) :=
  if callee.isHeapAllocator && s.settings.modelIndirectHeapAllocators then do
    let reached ← allocate s added site.id
    connectParameters reached.1.1 reached.1.2 site callee
  else connectParameters s added site callee

/-- Connects one callee of a fork. -/
def connectFork (s : Solver) (added : CopySet) (site : CallSite) (callee : FunctionDecl) :
    Except AnalysisError (Solver × CopySet) :=
  match site.forkArg, callee.forkEntry with
  | some actual, some formal => connectCopy s added actual formal
  | none, _ => .ok (s.report (.forkWithoutArgument site.id callee.name), added)
  | some _, none => .ok (s.report (.forkWithoutParameter site.id callee.name), added)

/-- Connects one callee, by the kind of the site. -/
def connectCallee (s : Solver) (added : CopySet) (site : CallSite) (callee : FunctionDecl) :
    Except AnalysisError (Solver × CopySet) :=
  if site.isFork then connectFork s added site callee else connectCall s added site callee

/-- Connects one callee unless it is connected already. -/
def connectPair (r : Round) (site : CallSite) (callee : FunctionDecl) :
    Except AnalysisError Round :=
  match r.solver.calls.insert site.id callee.id with
  | (_, false) => .ok r
  | (calls, true) => do
    let s := { r.solver with
      calls, counters.indirectCallEdges := r.solver.counters.indirectCallEdges + 1 }.report
        (.targetConnected site.id callee.name site.isFork)
    let reached ← connectCallee s r.added site callee
    return { solver := reached.1, added := reached.2, connected := r.connected.insert site.id }

/-- Connects callees in order. -/
def connectPairs (r : Round) : List (CallSite × FunctionDecl) → Except AnalysisError Round
  | [] => .ok r
  | (site, callee) :: rest => do
    let reached ← connectPair r site callee
    connectPairs reached rest

/-- Connects the callees of a round; tells whether one of them is new. -/
def connect (s : Solver) (targets : CallEdges) : Except AnalysisError (Solver × Bool) := do
  let pairs ← s.resolve targets
  let reached ← connectPairs { solver := s } pairs
  return (closeRound reached, !reached.connected.isEmpty)

/-- Treats classes until none waits. -/
def solve (s : Solver) : Except AnalysisError Solver := s.solve.2.map fun _ => s.solve.1

/-- Rounds of the analysis with the built-in source. -/
def runRounds (s : Solver) : Nat → Nat → Except AnalysisError (Solver × Nat)
  | 0, rounds => .ok (s, rounds)
  | fuel + 1, rounds => do
    let solved ← solve (s.report (.roundStarted rounds))
    let reached ← connect solved solved.newTargets
    if reached.2 then
      match reached.1.settings.maxCallGraphRounds with
      | none => runRounds reached.1 fuel (rounds + 1)
      | some limit =>
        if limit ≤ rounds + 1 then do
          let last ← solve (reached.1.report (.roundLimitReached limit))
          return (last, rounds + 1)
        else runRounds reached.1 fuel (rounds + 1)
    else return (reached.1, rounds)

/-- The analysis with the built-in source. -/
def analyze (s : Solver) : Except AnalysisError Solver := do
  let start := Analysis.start s
  let reached ← runRounds start (start.pairBound + 1) 0
  return Analysis.finish reached.1 reached.2

end Checked

/-! ## Where both forms agree -/

variable {s t : Solver} {added : CopySet} {site : CallSite} {callee : FunctionDecl}
  {nodes : List NodeId} {pairs : List (NodeId × NodeId)} {F : NodeId → NodeId → Prop}
  {A : SiteId → Prop} {u v : Solver × CopySet} {a b : NodeId} {r : Round}

/-- Merged nodes and the given ones lie in the graph. -/
structure Covers (s : Solver) (nodes : List NodeId) : Prop where
  grounded : s.Grounded
  nodes : ∀ n ∈ nodes, s.graph.hasNode n = true

theorem Covers.wiring (h : u.1.Covers nodes) (hw : Wiring F A u v) : v.1.Covers nodes := by
  refine ⟨h.grounded.wiring hw, ?_⟩
  exact fun n hn => (Grows.wiring hw).hasNode (h.nodes n hn)

namespace Checked

theorem connectCopy_eq (h : s.Covers nodes) (ha : a ∈ nodes) (hb : b ∈ nodes) (added : CopySet) :
    connectCopy s added a b = .ok (s.connectCopy added a b) := by
  have hknown : s.graph.missing? [s.representative a, s.representative b] = none := by
    rw [ConstraintGraph.missing?_eq_none]
    simp only [List.mem_cons, List.not_mem_nil, or_false, forall_eq_or_imp, forall_eq]
    exact ⟨h.grounded.hasNode_representative (h.nodes a ha),
      h.grounded.hasNode_representative (h.nodes b hb)⟩
  unfold connectCopy
  rw [hknown]

theorem connectCopies_eq (h : s.Covers nodes) (hpairs : ∀ e ∈ pairs, e.1 ∈ nodes ∧ e.2 ∈ nodes)
    (added : CopySet) : connectCopies s added pairs = .ok (s.connectCopies added pairs) := by
  induction pairs generalizing s added with
  | nil => rfl
  | cons e rest ih =>
    obtain ⟨src, dst⟩ := e
    obtain ⟨hsrc, hdst⟩ := hpairs (src, dst) List.mem_cons_self
    have hmove : Wiring (fun _ _ => True) (fun _ => False) (s, added)
        (s.connectCopy added src dst) := .single (.copy trivial)
    unfold connectCopies
    rw [connectCopy_eq h hsrc hdst]
    exact ih (h.wiring hmove) (fun e he => hpairs e (List.mem_cons_of_mem _ he)) _

/-! ### One callee -/

/-- The memory of a site lies in the graph, and so does the result of the call. -/
theorem allocate_eq (hc : s.Contained) (hr : s.Registered) (added : CopySet) (i : SiteId) :
    allocate s added i = (s.allocate added i).2.map ((s.allocate added i).1, ·) := by
  unfold allocate Solver.allocate
  cases hsite : s.sites[i]? with
  | none => rfl
  | some registered =>
    have hret : ∀ n ∈ registered.ret.toList, s.graph.hasNode n = true := by
      intro n hn
      refine hr.hasNode_site hsite ?_
      simp [CallSite.nodes, Option.mem_toList.mp hn]
    have hpairs : ∀ value : NodeId, ∀ e ∈ registered.ret.toList.map (value, ·),
        e.1 ∈ value :: registered.ret.toList ∧ e.2 ∈ value :: registered.ret.toList := by
      intro value e he
      obtain ⟨n, hn, rfl⟩ := List.mem_map.mp he
      exact ⟨List.mem_cons_self, List.mem_cons_of_mem _ hn⟩
    dsimp only
    cases hmade : s.allocation? i with
    | some made =>
      have hcovers : s.Covers (made.value :: registered.ret.toList) := by
        refine ⟨hc.grounded, fun n hn => ?_⟩
        rcases List.mem_cons.mp hn with rfl | hn
        · exact (hc.allocations hmade).1
        · exact hret n hn
      dsimp only
      rw [connectCopies_eq hcovers (hpairs _)]
      rfl
    | none =>
      have hcovers : (s.createAllocation i).1.Covers
          ((s.createAllocation i).2.value :: registered.ret.toList) := by
        refine ⟨hc.grounded.createAllocation i, fun n hn => ?_⟩
        rcases List.mem_cons.mp hn with rfl | hn
        · rw [createAllocation_snd]
          exact hasNode_fresh s i Nat.two_pos
        · exact hasNode_createAllocation (hret n hn) i
      dsimp only
      rw [connectCopies_eq hcovers (hpairs _)]
      rfl

theorem connectSurplus_eq (h : s.Covers (site.nodes ++ callee.nodes)) (added : CopySet) :
    connectSurplus s added site callee = .ok (s.connectSurplus added site callee) := by
  unfold connectSurplus Solver.connectSurplus
  cases hsurplus : surplusArgs site callee with
  | nil => rfl
  | cons first rest =>
    cases hvararg : callee.vararg with
    | none => rfl
    | some vararg =>
      dsimp only
      split
      · refine connectCopies_eq h (fun e he => ?_) added
        obtain ⟨a, ha, rfl⟩ := List.mem_map.mp he
        have harg : a ∈ site.args := List.mem_of_mem_drop (hsurplus ▸ ha)
        simp [CallSite.nodes, FunctionDecl.nodes, harg, hvararg]
      · rfl

/-- Results, arguments and surplus are connected without a failure, as no stage takes a node out of
the graph. -/
theorem connectParameters_eq (h : s.Covers (site.nodes ++ callee.nodes)) (added : CopySet) :
    connectParameters s added site callee = .ok (s.connectParameters added site callee) := by
  have hnodes : ∀ {a b}, ParameterFlow s.settings site callee a b →
      a ∈ site.nodes ++ callee.nodes ∧ b ∈ site.nodes ++ callee.nodes := ParameterFlow.mem_nodes
  have hresults := connectCopies_eq h (fun e he => hnodes (flow_of_mem_resultCopies he)) added
  have hcovers := (h.wiring (wiring_copies s added (resultCopies site callee))).wiring
    (wiring_reportMissing (F := fun _ _ => True) (A := fun _ => False) _ _ site callee)
  have harguments := connectCopies_eq hcovers
    (fun e he => hnodes (flow_of_mem_argumentCopies he))
    (s.connectCopies added (resultCopies site callee)).2
  have hsurplus := connectSurplus_eq (hcovers.wiring (wiring_copies _
    (s.connectCopies added (resultCopies site callee)).2 (argumentCopies site callee)))
  unfold connectParameters
  rw [hresults]
  change (connectCopies _ _ (argumentCopies site callee) >>= _) = _
  rw [harguments]
  exact hsurplus _

theorem connectCall_eq (h : s.Covers (site.nodes ++ callee.nodes)) (hc : s.Contained)
    (hr : s.Registered) (added : CopySet) :
    connectCall s added site callee =
      (s.connectCall added site callee).2.map fun _ => (s.connectCall added site callee).1 := by
  unfold connectCall Solver.connectCall
  split
  · have hcovers := h.wiring (wiring_allocate (F := fun _ _ => True) s added site.id)
    rw [allocate_eq hc hr]
    cases hout : s.allocate added site.id with
    | mk reached outcome =>
      rw [hout] at hcovers
      cases outcome with
      | error e => rfl
      | ok made => exact connectParameters_eq hcovers reached.2
  · exact connectParameters_eq h added

theorem connectFork_eq (h : s.Covers (site.nodes ++ callee.nodes)) (added : CopySet) :
    connectFork s added site callee = .ok (s.connectFork added site callee) := by
  unfold connectFork Solver.connectFork
  cases hactual : site.forkArg with
  | none => rfl
  | some actual =>
    cases hformal : callee.forkEntry with
    | none => rfl
    | some formal =>
      have hflow : ForkFlow site callee actual formal := by
        refine ⟨?_, hformal⟩
        unfold CallSite.forkArg at hactual
        split at hactual
        · exact hactual
        · cases hactual
      exact connectCopy_eq h hflow.mem_nodes.1 hflow.mem_nodes.2 added

theorem connectCallee_eq (h : s.Covers (site.nodes ++ callee.nodes)) (hc : s.Contained)
    (hr : s.Registered) (hsite : s.sites[site.id]? = some site) (added : CopySet) :
    connectCallee s added site callee = .ok (s.connectCallee added site callee) := by
  unfold connectCallee Solver.connectCallee
  split
  · exact connectFork_eq h added
  · rw [connectCall_eq h hc hr, Solver.connectCall_eq hsite]
    rfl

/-! ### A round -/

theorem connectPair_eq (hs : r.solver.Coherent) (hc : r.solver.Contained)
    (hsite : r.solver.sites[site.id]? = some site)
    (hcallee : r.solver.functions.get? callee.id = some callee) :
    connectPair r site callee = .ok (Solver.connectPair r site callee).1 := by
  rw [Solver.connectPair_eq hsite]
  unfold connectPair
  split
  · rename_i calls hinsert
    have hedge := congrArg Prod.snd hinsert
    rw [CallGraph.insert_snd, Bool.not_eq_false'] at hedge
    rw [if_pos hedge]
  · rename_i calls hinsert
    have hedge := congrArg Prod.snd hinsert
    rw [CallGraph.insert_snd, Bool.not_eq_true'] at hedge
    have hnew : ¬ r.solver.calls.hasEdge site.id callee.id = true := by simp [hedge]
    obtain rfl : (r.solver.calls.insert site.id callee.id).1 = calls := by rw [hinsert]
    rw [if_neg hnew]
    have hstep : Step .analysis r.solver (r.solver.addCallee site callee) :=
      .callee hsite hcallee hnew
    have hs' := hs.step hstep
    have hc' := hc.step hs.valid Licence.bounded_analysis hstep
    have hcovers : (r.solver.addCallee site callee).Covers (site.nodes ++ callee.nodes) := by
      refine ⟨hc'.grounded, fun n hn => ?_⟩
      rcases List.mem_append.mp hn with hn | hn
      · exact hs'.registered.hasNode_site hsite hn
      · exact hs'.registered.hasNode_function hcallee hn
    change (connectCallee (r.solver.addCallee site callee) r.added site callee >>= _) = _
    rw [connectCallee_eq hcovers hc' hs'.registered hsite]
    rfl

theorem connectPairs_eq {pairs : List (CallSite × FunctionDecl)} (hs : r.solver.Coherent)
    (hc : r.solver.Contained)
    (hpairs : ∀ {site callee}, (site, callee) ∈ pairs → r.solver.sites[site.id]? = some site ∧
      r.solver.functions.get? callee.id = some callee) :
    connectPairs r pairs = .ok (Solver.connectPairs r pairs).1 := by
  induction pairs generalizing r with
  | nil => rfl
  | cons pair rest ih =>
    obtain ⟨site, callee⟩ := pair
    obtain ⟨hsite, hcallee⟩ := hpairs List.mem_cons_self
    unfold connectPairs Solver.connectPairs
    rw [connectPair_eq hs hc hsite hcallee, Solver.connectPair_eq hsite]
    split_ifs with hedge
    · exact ih hs hc fun hmem => hpairs (List.mem_cons_of_mem _ hmem)
    · have hsteps := steps_extend (Licence.le_refl .analysis) hs hsite hcallee hedge
      have hgrows := hsteps.grows hs
      refine ih (hs.steps hsteps) (hc.steps hs Licence.bounded_analysis hsteps) fun hmem => ?_
      rw [hgrows.sites, hgrows.functions]
      exact hpairs (List.mem_cons_of_mem _ hmem)

/-- **A round leaves out no copy.** -/
theorem connect_eq (hs : s.Coherent) (hc : s.Contained) (targets : CallEdges) :
    connect s targets = (s.connect targets).2.map ((s.connect targets).1, ·) := by
  unfold connect
  rcases connect_cases hs.registered targets with ⟨e, hresolve, heq⟩ | ⟨pairs, hresolve, heq⟩
  · rw [hresolve, heq]
    rfl
  · have hpairs := connectPairs_eq (r := { solver := s }) hs hc fun hmem => by
      obtain ⟨hsite, hcallee, -⟩ := (mem_pairs_of_resolve hs.registered hresolve).mp hmem
      exact ⟨hsite, hcallee⟩
    rw [hresolve, heq]
    change (connectPairs { solver := s } pairs >>= _) = _
    rw [hpairs]
    rfl

/-- A checked round that does not fail, with what follows it. -/
theorem runRounds_of_round {w : Solver} {rounds : Nat} {new : Bool}
    (hsolve : solve (s.report (.roundStarted rounds)) = .ok t)
    (hconnect : connect t t.newTargets = .ok (w, new)) (fuel : Nat) :
    runRounds s (fuel + 1) rounds =
      if new then
        match w.settings.maxCallGraphRounds.filter (· ≤ rounds + 1) with
        | none => runRounds w fuel (rounds + 1)
        | some limit => (solve (w.report (.roundLimitReached limit))).map (·, rounds + 1)
      else .ok (w, rounds) := by
  rw [runRounds, hsolve]
  dsimp only [bind, Except.bind]
  rw [hconnect]
  dsimp only
  cases new with
  | false => rfl
  | true =>
    rw [if_pos rfl, if_pos rfl]
    cases w.settings.maxCallGraphRounds with
    | none => rfl
    | some limit =>
      dsimp only
      by_cases hlimit : limit ≤ rounds + 1
      · rw [if_pos hlimit, Option.filter_some_pos (by simpa using hlimit)]
        rfl
      · rw [if_neg hlimit, Option.filter_some_neg (by simpa using hlimit)]

end Checked

/-! ## Whole analyses -/

/-- **A state that keeps to its graph**, with no address edge from outside. -/
structure Enclosed (s : Solver) : Prop where
  coherent : s.Coherent
  contained : s.Contained
  outside : s.outsideAddresses = []

namespace Enclosed

theorem steps (h : s.Enclosed) (hsteps : Steps .analysis s t) : t.Enclosed where
  coherent := h.coherent.steps hsteps
  contained := h.contained.steps h.coherent Licence.bounded_analysis hsteps
  outside := (hsteps.grows h.coherent).outsideAddresses.trans h.outside

theorem seed_ok (h : s.Enclosed) : s.seed.2 = .ok () := by
  refine seedEdges_ok fun e he => ?_
  rw [Solver.addressEdges, h.outside, List.append_nil] at he
  exact h.coherent.valid.graph.ends (h.coherent.valid.graph.mem_addressEdges.mp he)

theorem solve_ok (h : s.Enclosed) : s.solve.2 = .ok () := by
  refine Solver.solve_ok h.coherent h.contained fun e he => ?_
  rw [h.outside] at he
  cases he

/-- Solving after a report leads to a state that keeps to its graph. -/
theorem solve_report (h : s.Enclosed) (e : Event) :
    ∃ t, (s.report e).solve = (t, .ok ()) ∧ Checked.solve (s.report e) = .ok t ∧ t.Enclosed := by
  have hok := (h.steps (.single (.note rfl rfl)) : (s.report e).Enclosed).solve_ok
  refine ⟨(s.report e).solve.1, Prod.ext rfl hok, ?_, ?_⟩
  · unfold Checked.solve
    rw [hok]
    rfl
  · exact h.steps (Analysis.steps_solve_report h.coherent e)

/-- Connecting what the sets show does as well, and leaves out no copy. -/
theorem connect (h : s.Enclosed) :
    ∃ t new, s.connect s.newTargets = (t, .ok new) ∧
      Checked.connect s s.newTargets = .ok (t, new) ∧ t.Enclosed := by
  obtain ⟨new, hok⟩ := connect_newTargets_ok h.coherent.registered
  refine ⟨(s.connect s.newTargets).1, new, Prod.ext rfl hok, ?_, ?_⟩
  · rw [Checked.connect_eq h.coherent h.contained, hok]
    rfl
  · exact h.steps (steps_connect (Licence.le_refl .analysis) h.coherent s.newTargets)

/-- **Rounds do not fail and leave out no copy**, however many there are. -/
theorem runRounds (h : s.Enclosed) (fuel rounds : Nat) :
    ∃ t n, Analysis.runRounds ⟨s, .builtin, ()⟩ fuel rounds = (⟨t, .builtin, ()⟩, .ok n) ∧
      Checked.runRounds s fuel rounds = .ok (t, n) := by
  induction fuel generalizing s rounds with
  | zero => exact ⟨s, rounds, rfl, rfl⟩
  | succ fuel ih =>
    obtain ⟨t, hsolve, hsolve', ht⟩ := h.solve_report (.roundStarted rounds)
    obtain ⟨u, new, hconnect, hconnect', hu⟩ := ht.connect
    rw [Analysis.runRounds_of_round (a := ⟨s, .builtin, ()⟩) hsolve hconnect fuel,
      Checked.runRounds_of_round hsolve' hconnect' fuel]
    cases new with
    | false => exact ⟨u, rounds, rfl, rfl⟩
    | true =>
      rw [if_pos rfl, if_pos rfl]
      cases u.settings.maxCallGraphRounds.filter (· ≤ rounds + 1) with
      | none => exact ih hu (rounds + 1)
      | some limit =>
        obtain ⟨v, hlast, hlast', -⟩ := hu.solve_report (.roundLimitReached limit)
        refine ⟨v, rounds + 1, Analysis.stopAtLimit_of_solve hlast, ?_⟩
        dsimp only
        rw [hlast']
        rfl

/-- **An analysis does not fail and leaves out no copy.** -/
theorem analyze (h : s.Enclosed) :
    s.analyze.2 = .ok () ∧ Checked.analyze s = .ok s.analyze.1 := by
  have hstart : (Analysis.start s).Enclosed := h.steps (Analysis.steps_start s)
  obtain ⟨t, n, hrounds, hrounds'⟩ := hstart.runRounds ((Analysis.start s).pairBound + 1) 0
  have hanalyze : s.analyze = (Analysis.finish t n, .ok ()) := by
    unfold Solver.analyze Analysis.run
    dsimp only
    rw [hrounds]
  unfold Checked.analyze
  dsimp only
  rw [hrounds', hanalyze]
  exact ⟨rfl, rfl⟩

end Enclosed

end Solver

open Solver

variable {p : Problem} {s : Solver}

/-- Operations that name nodes of the graph keep a state enclosed in it. -/
theorem Reachable.enclosed (hp : p.Plain) (h : Reachable .known p s) : s.Enclosed := by
  refine ⟨h.coherent hp.made, h.contained hp.made hp.contained, ?_⟩
  refine h.keeps (I := fun s => s.outsideAddresses = []) hp.made (fun hs => ?_) ?_
  · obtain ⟨-, -, rfl⟩ := ofProblem_eq_ok hs
    exact hp.outside
  · exact fun hs hsteps hnone => (hsteps.grows hs).outsideAddresses.trans hnone

/-- **Nothing fails that keeps to the graph, and nothing is refused in silence.** After operations
that name nodes of the graph, solving, looking at the address edges and the analysis do not fail; a
round is refused for a name that is not registered, and for nothing else; and whatever adds copies
adds them all, as the same with checked copies does the same. The state before the analysis is one
of these states. -/
theorem infallible_of_reachable (hp : p.Plain) (h : Reachable .known p s) :
    s.solve.2 = .ok () ∧ s.seed.2 = .ok () ∧ s.analyze.2 = .ok () ∧
    (∀ targets e, (s.connect targets).2 = .error e →
      ∃ entry ∈ targets.toList, (s.sites[entry.1]? = none ∧ e = .unknownCallSite entry.1) ∨
        ∃ f ∈ entry.2, s.functions.get? f = none ∧ e = .unknownFunction f) ∧
    (∀ targets, Checked.connect s targets =
      (s.connect targets).2.map ((s.connect targets).1, ·)) ∧
    (∀ added i, Checked.allocate s added i =
      (s.allocate added i).2.map ((s.allocate added i).1, ·)) ∧
    (∀ added site callee, (∀ n ∈ site.nodes ++ callee.nodes, s.graph.hasNode n = true) →
      Checked.connectCall s added site callee =
        (s.connectCall added site callee).2.map (fun _ => (s.connectCall added site callee).1) ∧
      Checked.connectFork s added site callee = .ok (s.connectFork added site callee)) ∧
    Checked.analyze s = .ok s.analyze.1 := by
  have henclosed := h.enclosed hp
  have hs := henclosed.coherent
  have hc := henclosed.contained
  refine ⟨henclosed.solve_ok, henclosed.seed_ok, henclosed.analyze.1, fun targets e he => ?_,
    Checked.connect_eq hs hc, Checked.allocate_eq hc hs.registered,
    fun added site callee hnodes => ?_, henclosed.analyze.2⟩
  · rcases connect_cases hs.registered targets with ⟨e', hresolve, heq⟩ | ⟨pairs, -, heq⟩
    · rw [heq] at he
      injection he with he
      exact resolve_eq_error (he ▸ hresolve)
    · rw [heq] at he
      cases he
  · have hcovers : s.Covers (site.nodes ++ callee.nodes) := ⟨hc.grounded, hnodes⟩
    exact ⟨Checked.connectCall_eq hcovers hc hs.registered added,
      Checked.connectFork_eq hcovers added⟩

/-- In the sample a round with a site that is not registered is refused, a callee of the fork is
connected, and the analysis does not fail. -/
theorem infallible_sampleHistory :
    (sampleHistory.connect (.ofList [(4, [3])])).2 = .error (.unknownCallSite 4) ∧
      (∃ entry ∈ (CallEdges.ofList [(4, [3])]).toList,
        (sampleHistory.sites[entry.1]? = none ∧ AnalysisError.unknownCallSite 4 =
          .unknownCallSite entry.1) ∨
        ∃ f ∈ entry.2, sampleHistory.functions.get? f = none ∧
          AnalysisError.unknownCallSite 4 = .unknownFunction f) ∧
      (∀ site ∈ sampleSites, Checked.connectFork sampleHistory ∅ site sampleFunction =
        .ok (sampleHistory.connectFork ∅ site sampleFunction)) ∧
      sampleHistory.analyze.2 = .ok () := by
  have hrefused : (sampleHistory.connect (.ofList [(4, [3])])).2 = .error (.unknownCallSite 4) := by
    decide +kernel
  have hnodes : ∀ site ∈ sampleSites, ∀ n ∈ site.nodes ++ sampleFunction.nodes,
      sampleHistory.graph.hasNode n = true := by decide +kernel
  obtain ⟨-, -, hok, hround, -, -, hcallee, -⟩ :=
    infallible_of_reachable sampleProblem_plain known_sampleHistory
  exact ⟨hrefused, hround _ _ hrefused,
    fun site hsite => (hcallee ∅ site sampleFunction (hnodes site hsite)).2, hok⟩

end PointsTo
