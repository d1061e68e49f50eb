import PointsTo.Proofs.Ledger
import PointsTo.Proofs.Precision
import PointsTo.Proofs.Tally
import PointsTo.Proofs.Totality

/-!
# Confluence

The order of the worklist, the choice of representatives and the order in which constraints were
given decide which merges are made and which copies connecting adds, but not the result. A solved
state meets its own demands and lies below every solution that meets them; two solved states of
problems with the same constraints ask for the same once their ledgers agree, so each lies below the
other. They show the same callees, and connecting these takes them to states whose ledgers agree
again. The rounds of two runs thus go in lock-step, bounded or not.

## Main definitions

* `Solver.Stage`: what holds between the rounds of a run
* `Solver.Alike`: two states with one ledger, the same classes and the same sets
* `Solver.Turn`: a round between stages
* `Solver.Agree`: two results that cannot be told apart

## Main results

* `Stage.alike`: solved states whose ledgers agree are alike
* `Turn.ledger_next`: stages whose ledgers agree before a round agree after it
* `runRounds_alike`: the rounds of two runs go in lock-step
* `agree_analyze`: analyses of the same problem agree
-/

namespace PointsTo

namespace Solver

variable {base base' s s' t t' : Solver} {u : Solution} {σ : Type} {limit : Option Nat}
  {count : Nat}

/-- What holds between the rounds of a run. -/
structure Stage (base s : Solver) : Prop where
  minimal : Minimal base s
  honoured : s.Honoured
  tallied : s.Tallied

/-- **Two states with one ledger, the same classes and the same sets.** -/
structure Alike (s t : Solver) : Prop where
  ledger : s.ledger = t.ledger
  same : ∀ x y, s.Same x y ↔ t.Same x y
  pointsTo : ∀ n o, o ∈ s.pointsTo n ↔ o ∈ t.pointsTo n

/-! ## Solving -/

/-- Steps that leave the calls and the memory alone do not leave the stage. -/
theorem Stage.steps (h : Stage base s) (hsteps : Steps .analysis s t) (hcalls : t.calls = s.calls)
    (hallocations : t.allocations = s.allocations) : Stage base t := by
  have hs := h.minimal.coherent
  exact ⟨h.minimal.steps hsteps, h.honoured.frame (hsteps.grows hs) hcalls hallocations,
    h.tallied.steps hs h.minimal.contained hsteps⟩

/-- Solving between rounds gives a solved state with the same ledger. -/
theorem Stage.solve (h : Stage base s) (hp : s.Poised) (e : Event) :
    ∃ t, (s.report e).solve = (t, .ok ()) ∧ Stage base t ∧ t.Solved ∧ t.ledger = s.ledger := by
  have hs := h.minimal.coherent
  have hc := h.minimal.contained
  have hreport : Steps .analysis s (s.report e) := .single (.note rfl rfl)
  have hsteps := Analysis.steps_solve_report (L := .analysis) hs e
  have hok : (s.report e).solve.2 = .ok () := by
    refine solve_ok (hs.steps hreport) (hc.steps hs Licence.bounded_analysis hreport) fun a ha => ?_
    have hnone : (s.report e).outsideAddresses = [] := h.minimal.outside
    rw [hnone] at ha
    cases ha
  obtain ⟨seeded, hframe⟩ := Analysis.frame_solve_report hs e
  refine ⟨(s.report e).solve.1, Prod.ext rfl hok, ?_, ?_, hframe.ledger⟩
  · exact h.steps hsteps hframe.calls hframe.allocations
  · exact solved_solve (hs.steps hreport) (hp.report e) hok

/-- What is asked of a solution depends on the constraints and on the ledger. -/
theorem meets_congr {g g' : ConstraintGraph}
    (hedges : ∀ k x y, g.hasEdge k x y = g'.hasEdge k x y)
    (hledger : s.ledger = t.ledger.under limit count) (h : u.Meets g' t) : u.Meets g s := by
  have hsites : s.sites = t.sites := congrArg Ledger.sites hledger
  have hmade : ∀ i, s.allocation? i = t.allocation? i := fun i =>
    congrArg (·.allocations[i]?) hledger
  refine ⟨h.rules.anti fun k x y he => (hedges k x y).symm.trans he, ?_, ?_, ?_⟩
  · intro site callee a b hc hflow
    have hfunctions : s.functions = t.functions := congrArg Ledger.functions hledger
    have hcalls : s.calls = t.calls := congrArg Ledger.calls hledger
    refine h.flow ⟨hsites ▸ hc.registered, hfunctions ▸ hc.declared, hcalls ▸ hc.edge⟩ ?_
    exact hflow.congr (congrArg Ledger.varargs hledger)
  · exact fun hm => h.object (hmade _ ▸ hm)
  · exact fun hm hsite hr => h.value (hmade _ ▸ hm) (hsites ▸ hsite) hr

/-- What `t` asks of a solution its own classes and sets meet, and `s` asks for the same. -/
theorem Stage.above (h : Stage base s) (h' : Stage base' t)
    (hedges : ∀ k x y, base.graph.hasEdge k x y = base'.graph.hasEdge k x y)
    (ht : t.Closed) (hledger : s.ledger = t.ledger.under limit count) : t.solution.Above s := by
  refine h.minimal.least t.solution (meets_congr hedges hledger ?_)
  exact h'.honoured.meets ht h'.minimal.grows

/-- **Solved states whose ledgers agree but for the rounds have the same classes and the same
sets**: each lies below the other. -/
theorem Stage.coincide (h : Stage base s) (h' : Stage base' t)
    (hedges : ∀ k x y, base.graph.hasEdge k x y = base'.graph.hasEdge k x y)
    (hs : s.Solved) (ht : t.Solved) (hledger : s.ledger = t.ledger.under limit count) :
    (∀ x y, s.Same x y ↔ t.Same x y) ∧ ∀ n o, o ∈ s.pointsTo n ↔ o ∈ t.pointsTo n := by
  have hback : t.ledger = s.ledger.under t.ledger.limit t.ledger.rounds := by
    rw [hledger]
    rfl
  have hst := h.above h' hedges (ht.closed h'.minimal.coherent) hledger
  have hts := h'.above h (fun k x y => (hedges k x y).symm) (hs.closed h.minimal.coherent) hback
  exact ⟨fun x y => ⟨hst.same, hts.same⟩, fun n o => ⟨hst.pointsTo, hts.pointsTo⟩⟩

/-- **Solved states whose ledgers agree are alike.** -/
theorem Stage.alike (h : Stage base s) (h' : Stage base' t)
    (hedges : ∀ k x y, base.graph.hasEdge k x y = base'.graph.hasEdge k x y)
    (hs : s.Solved) (ht : t.Solved) (hledger : s.ledger = t.ledger) : Alike s t := by
  have hunder : s.ledger = t.ledger.under t.ledger.limit t.ledger.rounds := hledger
  obtain ⟨hsame, hpointsTo⟩ := h.coincide h' hedges hs ht hunder
  exact ⟨hledger, hsame, hpointsTo⟩

/-! ## Connecting -/

/-- What is shown depends on the sites, the functions and the sets. -/
theorem shows_congr (hsites : s.sites = t.sites) (hfunctions : s.functions = t.functions)
    (hpointsTo : ∀ n o, o ∈ s.pointsTo n ↔ o ∈ t.pointsTo n) (i : SiteId) (f : FunctionId) :
    s.Shows i f ↔ t.Shows i f := by
  unfold Shows
  simp only [hsites, hfunctions, hpointsTo]

/-- The built-in source reads the ledger and the sets. -/
theorem newTargets_congr (hledger : s.ledger = t.ledger.under limit count)
    (hpointsTo : ∀ n o, o ∈ s.pointsTo n ↔ o ∈ t.pointsTo n) : s.newTargets = t.newTargets := by
  have hcalls : s.calls = t.calls := congrArg Ledger.calls hledger
  have hshows := shows_congr (congrArg Ledger.sites hledger) (congrArg Ledger.functions hledger)
    hpointsTo
  refine s.tight_newTargets.ext t.tight_newTargets fun i f => ?_
  rw [mem_newTargets, mem_newTargets, hcalls, hshows]

/-- Connecting what a solved state shows leads to the next stage. -/
theorem Stage.connect (h : Stage base s) (hsolved : s.Solved) :
    ∃ t new, s.connect s.newTargets = (t, .ok new) ∧ Stage base t ∧ t.Poised := by
  have hs := h.minimal.coherent
  have hc := h.minimal.contained
  obtain ⟨new, hok⟩ := connect_newTargets_ok hs.registered
  have hsteps := steps_connect (Licence.le_refl .analysis) hs s.newTargets
  refine ⟨(s.connect s.newTargets).1, new, Prod.ext rfl hok, ⟨h.minimal.steps hsteps, ?_, ?_⟩, ?_⟩
  · exact h.honoured.connect hs hc s.newTargets
  · exact h.tallied.steps hs hc hsteps
  · exact fun n => attained_settled.connect hs s.newTargets (.inr (hsolved.settled n))

/-! ## Rounds -/

/-- **A round between stages**: `s` is solved into `t`, and connecting what `t` shows gives `u`. -/
structure Turn (base : Solver) (rounds : Nat) (s t u : Solver) (new : Bool) : Prop where
  solve : (s.report (.roundStarted rounds)).solve = (t, .ok ())
  ledger : t.ledger = s.ledger
  stage : Stage base t
  solved : t.Solved
  connect : t.connect t.newTargets = (u, .ok new)
  next : Stage base u
  poised : u.Poised

/-- A stage that is poised takes its turn. -/
theorem Stage.turn (h : Stage base s) (hp : s.Poised) (rounds : Nat) :
    ∃ t u new, Turn base rounds s t u new := by
  obtain ⟨t, hsolve, ht, hsolved, hledger⟩ := h.solve hp (.roundStarted rounds)
  obtain ⟨u, new, hconnect, hu, hpu⟩ := ht.connect hsolved
  exact ⟨t, u, new, hsolve, hledger, ht, hsolved, hconnect, hu, hpu⟩

namespace Turn

variable {v v' : Solver} {rounds rounds' : Nat} {new new' : Bool}

theorem registered (h : Turn base rounds s t v new) : t.Registered :=
  h.stage.minimal.coherent.registered

theorem callRound (h : Turn base rounds s t v new) :
    Analysis.CallRound (σ := Unit) .builtin s t v new :=
  ⟨⟨rounds, h.solve⟩, ⟨(), h.connect⟩⟩

theorem solved_next (h : Turn base rounds s t v false) : v.Solved :=
  h.solved.connect_false h.registered h.connect

/-- **Rounds go by the ledger**: stages whose ledgers agree but for the rounds are told the same
callees, so that their ledgers agree again. -/
theorem ledger_next (h : Turn base rounds s t v new) (h' : Turn base' rounds' s' t' v' new')
    (hedges : ∀ k x y, base.graph.hasEdge k x y = base'.graph.hasEdge k x y)
    (hledger : s.ledger = s'.ledger.under limit count) :
    v.ledger = v'.ledger.under limit count ∧ new = new' := by
  rw [← h.ledger, ← h'.ledger] at hledger
  obtain ⟨-, hpointsTo⟩ := h.stage.coincide h'.stage hedges h.solved h'.solved hledger
  have hsame := ledger_connect hledger h.registered h'.registered t.newTargets
  rw [newTargets_congr hledger hpointsTo, h'.connect, ← newTargets_congr hledger hpointsTo,
    h.connect] at hsame
  exact ⟨hsame.1, Except.ok.inj hsame.2⟩

/-- A round leaves the limit and the count of the rounds alone. -/
theorem ledger_under (h : Turn base rounds s t v new) :
    v.ledger = v.ledger.under s.ledger.limit s.ledger.rounds := by
  have hself : s.ledger = s.ledger.under s.ledger.limit s.ledger.rounds := rfl
  exact (h.ledger_next h (fun _ _ _ => rfl) hself).1

end Turn

/-- **The rounds of two runs go in lock-step.** -/
theorem runRounds_alike {a c : Analysis σ}
    (hedges : ∀ k x y, base.graph.hasEdge k x y = base'.graph.hasEdge k x y)
    (ha : a.source = .builtin) (hc : c.source = .builtin)
    (h : Stage base a.solver) (hp : a.solver.Poised)
    (h' : Stage base' c.solver) (hp' : c.solver.Poised)
    (hledger : a.solver.ledger = c.solver.ledger) {fuel : Nat}
    (hfuel : a.solver.unconnected < fuel) (rounds : Nat) :
    ∃ b d n, a.runRounds fuel rounds = (b, .ok n) ∧ c.runRounds fuel rounds = (d, .ok n) ∧
      Stage base b.solver ∧ Stage base' d.solver ∧ Alike b.solver d.solver := by
  -- On the fuel; what carries the induction is that the ledgers agree before every round.
  induction fuel generalizing a c rounds with
  | zero => cases hfuel
  | succ fuel ih =>
    obtain ⟨t, u, new, hturn⟩ := h.turn hp rounds
    obtain ⟨t', u', new', hturn'⟩ := h'.turn hp' rounds
    have hunder : a.solver.ledger =
        c.solver.ledger.under c.solver.ledger.limit c.solver.ledger.rounds := hledger
    obtain ⟨hul, rfl⟩ := hturn.ledger_next hturn' hedges hunder
    rw [← hturn'.ledger_under] at hul
    rw [Analysis.runRounds_of_round hturn.solve (by rw [ha]; exact hturn.connect),
      Analysis.runRounds_of_round hturn'.solve (by rw [hc]; exact hturn'.connect)]
    cases new with
    | false =>
      exact ⟨_, _, rounds, rfl, rfl, hturn.next, hturn'.next,
        hturn.next.alike hturn'.next hedges hturn.solved_next hturn'.solved_next hul⟩
    | true =>
      have hlimit : u.settings.maxCallGraphRounds = u'.settings.maxCallGraphRounds :=
        congrArg Ledger.limit hul
      rw [hlimit, if_pos rfl, if_pos rfl]
      cases u'.settings.maxCallGraphRounds.filter (· ≤ rounds + 1) with
      | none =>
        have hless := hturn.callRound.unconnected_lt h.minimal.coherent
        exact ih (a := { a with solver := u, memory := _ })
          (c := { c with solver := u', memory := _ }) ha hc hturn.next hturn.poised hturn'.next
          hturn'.poised hul (Nat.lt_of_lt_of_le hless (Nat.le_of_lt_succ hfuel)) _
      | some limit =>
        obtain ⟨v, hlast, hv, hvs, hvl⟩ := hturn.next.solve hturn.poised (.roundLimitReached limit)
        obtain ⟨v', hlast', hv', hvs', hvl'⟩ :=
          hturn'.next.solve hturn'.poised (.roundLimitReached limit)
        refine ⟨_, _, _, Analysis.stopAtLimit_of_solve hlast, Analysis.stopAtLimit_of_solve hlast',
          hv, hv', ?_⟩
        exact hv.alike hv' hedges hvs hvs' (hvl.trans (hul.trans hvl'.symm))

/-! ## Runs -/

/-- **Two results that cannot be told apart** by classes, points-to sets, call graph, memory of the
sites and counts. -/
structure Agree (s t : Solver) : Prop where
  classes : ∀ x y,
    s.representative x = s.representative y ↔ t.representative x = t.representative y
  pointsTo : ∀ n o, o ∈ s.pointsTo n ↔ o ∈ t.pointsTo n
  /-- The callees and the state of every site. -/
  calls : s.calls = t.calls
  allocations : ∀ i, s.allocation? i = t.allocation? i
  merges : s.counters.merges = t.counters.merges
  equivalenceClasses : s.counters.equivalenceClasses = t.counters.equivalenceClasses
  callGraphRounds : s.counters.callGraphRounds = t.counters.callGraphRounds
  indirectCallEdges : s.counters.indirectCallEdges = t.counters.indirectCallEdges
  dummyObjects : s.counters.dummyObjects = t.counters.dummyObjects

/-- The classes are counted. -/
def Counted (s : Solver) : Prop :=
  s.counters.equivalenceClasses = s.classes.countClasses s.graph.nodeIds

/-- Counted results with the same classes and sets agree if their ledgers agree but for the
limit. -/
theorem agree_of_counted (hledger : s.ledger = t.ledger.under limit t.ledger.rounds)
    (hsame : ∀ x y, s.Same x y ↔ t.Same x y)
    (hpointsTo : ∀ n o, o ∈ s.pointsTo n ↔ o ∈ t.pointsTo n) (hs : s.Tallied) (ht : t.Tallied)
    (hcs : s.Counted) (hct : t.Counted) : Agree s t := by
  have hnodes : s.graph.nodeCount = t.graph.nodeCount := congrArg Ledger.nodes hledger
  have hcount : s.classes.countClasses s.graph.nodeIds =
      t.classes.countClasses t.graph.nodeIds := by
    unfold ConstraintGraph.nodeIds
    rw [← hnodes]
    exact Partition.countClasses_congr _ hsame
  exact {
    classes := hsame
    pointsTo := hpointsTo
    calls := congrArg Ledger.calls hledger
    allocations := fun i => congrArg (·.allocations[i]?) hledger
    merges := merges_eq hs ht hnodes hsame
    equivalenceClasses := hcs.trans (hcount.trans hct.symm)
    callGraphRounds := congrArg Ledger.rounds hledger
    indirectCallEdges := congrArg Ledger.callEdges hledger
    dummyObjects := congrArg Ledger.dummies hledger }

theorem counted_finish (s : Solver) (rounds : Nat) : (Analysis.finish s rounds).Counted := rfl

theorem ledger_finish (s : Solver) (rounds : Nat) :
    (Analysis.finish s rounds).ledger = s.ledger.under s.ledger.limit (s.ledger.rounds + rounds) :=
  rfl

theorem Alike.agree_finish (h : Alike s t) (hs : s.Tallied) (ht : t.Tallied) (rounds : Nat) :
    Agree (Analysis.finish s rounds) (Analysis.finish t rounds) := by
  have hledger : (Analysis.finish s rounds).ledger = (Analysis.finish t rounds).ledger.under
      t.ledger.limit (Analysis.finish t rounds).ledger.rounds := by
    rw [ledger_finish, ledger_finish, h.ledger]
    rfl
  exact agree_of_counted hledger h.same h.pointsTo hs ht (counted_finish _ _) (counted_finish _ _)

theorem Stage.start (h : Stage base s) : Stage base (Analysis.start s) :=
  h.steps (Analysis.steps_start s) (Analysis.frame_start s).calls
    (Analysis.frame_start s).allocations

theorem Stage.finish (h : Stage base s) (rounds : Nat) : Stage base (Analysis.finish s rounds) :=
  h.steps (.single (Analysis.step_finish s rounds)) rfl rfl

theorem analyze_of_runRounds {b : Analysis Unit} {n : Nat}
    (h : Analysis.runRounds ⟨Analysis.start s, .builtin, ()⟩ ((Analysis.start s).pairBound + 1) 0 =
      (b, .ok n)) : s.analyze = (Analysis.finish b.solver n, .ok ()) := by
  unfold analyze Analysis.run
  dsimp only
  rw [h]

/-- Two runs from stages whose ledgers agree end with results that agree. The bound on the rounds is
read off the ledger, so both are given the same one. -/
theorem Stage.agree (h : Stage base s) (h' : Stage base' t)
    (hedges : ∀ k x y, base.graph.hasEdge k x y = base'.graph.hasEdge k x y)
    (hledger : s.ledger = t.ledger) :
    s.analyze.2 = .ok () ∧ t.analyze.2 = .ok () ∧ Agree s.analyze.1 t.analyze.1 := by
  have hstart : (Analysis.start s).ledger = (Analysis.start t).ledger :=
    (Analysis.frame_start s).ledger.trans (hledger.trans (Analysis.frame_start t).ledger.symm)
  have hbound : (Analysis.start s).pairBound = (Analysis.start t).pairBound :=
    congrArg (fun l => l.sites.size * l.functions.size) hstart
  obtain ⟨b, b', n, hrun, hrun', hb, hb', halike⟩ := runRounds_alike
    (a := ⟨Analysis.start s, .builtin, ()⟩) (c := ⟨Analysis.start t, .builtin, ()⟩) hedges rfl rfl
    h.start (Analysis.poised_start h.minimal.coherent) h'.start
    (Analysis.poised_start h'.minimal.coherent) hstart (Nat.lt_succ_of_le (unconnected_le _)) 0
  change Analysis.runRounds _ ((Analysis.start s).pairBound + 1) 0 = _ at hrun
  change Analysis.runRounds _ ((Analysis.start s).pairBound + 1) 0 = _ at hrun'
  rw [hbound] at hrun'
  rw [analyze_of_runRounds hrun, analyze_of_runRounds hrun']
  exact ⟨rfl, rfl, halike.agree_finish hb.tallied hb'.tallied n⟩

end Solver

open Solver

/-- Settings that differ at most in the order of the worklist and the choice of representatives. -/
structure Settings.SameRules (settings settings' : Settings) : Prop where
  maxCallGraphRounds : settings.maxCallGraphRounds = settings'.maxCallGraphRounds
  connectVarargs : settings.connectVarargs = settings'.connectVarargs
  modelIndirectHeapAllocators :
    settings.modelIndirectHeapAllocators = settings'.modelIndirectHeapAllocators

variable {kinds : List NodeKind} {cs cs' : List Constraint} {g g' : ConstraintGraph}
  {ds : List FunctionDecl} {sites : List CallSite} {settings settings' : Settings}
  {p : Problem} {s s' : Solver}

theorem stage_ofProblem (hp : p.Plain) (h : ofProblem p = .ok s) : Stage s s :=
  ⟨minimal_ofProblem hp h, honoured_ofProblem h, tallied_ofProblem h⟩

theorem hasEdge_ofConstraints_congr (hcs : ∀ c, c ∈ cs ↔ c ∈ cs')
    (hg : ConstraintGraph.ofConstraints kinds cs = .ok g)
    (hg' : ConstraintGraph.ofConstraints kinds cs' = .ok g') (k : ConstraintKind) (x y : NodeId) :
    g.hasEdge k x y = g'.hasEdge k x y := by
  rw [Bool.eq_iff_iff, ConstraintGraph.hasEdge_ofConstraints hg,
    ConstraintGraph.hasEdge_ofConstraints hg']
  simp only [hcs]

/-- **Analyses of the same problem agree.** The constraints may be given in any order and any number
of times, and the settings may ask for another order of the worklist and another choice of
representatives: neither analysis fails, and their results cannot be told apart. -/
theorem agree_analyze (hcs : ∀ c, c ∈ cs ↔ c ∈ cs')
    (hg : ConstraintGraph.ofConstraints kinds cs = .ok g)
    (hg' : ConstraintGraph.ofConstraints kinds cs' = .ok g')
    (hsettings : settings.SameRules settings')
    (hs : ofProblem { graph := g, functions := .ofList ds, sites, settings } = .ok s)
    (hs' : ofProblem { graph := g', functions := .ofList ds, sites, settings := settings' } =
      .ok s') :
    s.analyze.2 = .ok () ∧ s'.analyze.2 = .ok () ∧ Agree s.analyze.1 s'.analyze.1 := by
  have hplain : ∀ {cs g} {settings : Settings}, ConstraintGraph.ofConstraints kinds cs = .ok g →
      Problem.Plain { graph := g, functions := .ofList ds, sites, settings } := fun h =>
    ⟨⟨ConstraintGraph.built_ofConstraints h, ds, rfl⟩, rfl, rfl⟩
  have hnodes : g.nodeCount = g'.nodeCount :=
    (ConstraintGraph.nodeCount_ofConstraints hg).trans
      (ConstraintGraph.nodeCount_ofConstraints hg').symm
  refine (stage_ofProblem (hplain hg) hs).agree (stage_ofProblem (hplain hg') hs') ?_ ?_
  all_goals
    obtain ⟨-, -, rfl⟩ := ofProblem_eq_ok hs
    obtain ⟨-, -, rfl⟩ := ofProblem_eq_ok hs'
  · exact hasEdge_ofConstraints_congr hcs hg hg'
  · unfold ledger
    rw [hsettings.maxCallGraphRounds, hsettings.connectVarargs,
      hsettings.modelIndirectHeapAllocators, hnodes]

/-- The constraints of the sample, given twice and in another order. -/
def sampleConstraintsAgain : List Constraint := sampleConstraints.reverse ++ sampleConstraints

/-- The settings of the sample with another worklist and other representatives. -/
def sampleSettingsAgain : Settings where
  worklistOrder := .lifo
  representativePolicy := .largerClass

/-- The solver of the sample with these constraints and settings. -/
def sampleSolverAgain : Solver :=
  { sampleSolver with
    settings := sampleSettingsAgain
    graph := ((ConstraintGraph.ofKinds (.replicate 12 .value)).insertAll sampleConstraintsAgain).1
    worklist := .empty .lifo }

theorem agree_analyze_sample :
    sampleSolver.analyze.2 = .ok () ∧ sampleSolverAgain.analyze.2 = .ok () ∧
      Agree sampleSolver.analyze.1 sampleSolverAgain.analyze.1 := by
  have hcs : ∀ c, c ∈ sampleConstraints ↔ c ∈ sampleConstraintsAgain := by
    simp [sampleConstraintsAgain]
  have hg : ConstraintGraph.ofConstraints (.replicate 12 .value) sampleConstraints =
      .ok sampleSolver.graph := rfl
  have hg' : ConstraintGraph.ofConstraints (.replicate 12 .value) sampleConstraintsAgain =
      .ok sampleSolverAgain.graph := rfl
  have hsettings : Settings.SameRules {} sampleSettingsAgain := ⟨rfl, rfl, rfl⟩
  have hs' : ofProblem
      { graph := sampleSolverAgain.graph
        functions := .ofList [sampleFunction]
        sites := sampleSites
        settings := sampleSettingsAgain } = .ok sampleSolverAgain := rfl
  exact agree_analyze hcs hg hg' hsettings ofProblem_sampleProblem hs'

end PointsTo
