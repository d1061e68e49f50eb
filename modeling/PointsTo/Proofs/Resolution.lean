import PointsTo.Proofs.Closure
import PointsTo.Proofs.Linked

/-!
# Calls are resolved

With no bound on the rounds, an analysis that asks the built-in source stops only when it finds no
callee that is not connected. So afterwards every callee that the points-to sets show is connected,
and since the copies that connecting has left behind are satisfied, whatever a connected callee
makes flow together shares a class. When the solver was fresh, nothing else is connected.

## Main definitions

* `Solver.Served`: a callee whose flow is unified and whose memory is made
* `Solver.Finished`: what holds of the result of an analysis
* `Solver.Resolved`: all callees that the sets show are connected, and all that are connected are
  served

## Main results

* `Honoured.served`: in a closed state every connected callee is served
* `hasEdge_of_shows_run`: a run without a bound connects all that its sets show
* `shows_of_hasEdge_run`: a run of a fresh solver connects nothing else
* `resolved_analyze_of_reachable`: the analysis resolves all calls
-/

namespace PointsTo

open Solver

namespace Solver

variable {s t : Solver} {σ : Type} {memory : σ} {i : SiteId} {f : FunctionId} {site : CallSite}
  {callee : FunctionDecl}

/-- **A callee that is served**: what flows together shares a class, and if it allocates there is
memory, to which the result of the call points. -/
structure Served (s : Solver) (site : CallSite) (callee : FunctionDecl) : Prop where
  flow : ∀ {a b}, CallFlow s.settings site callee a b → s.representative a = s.representative b
  memory : site.kind = .call → Allocates s.settings callee →
    ∃ m, s.allocation? site.id = some m ∧ ∀ r, site.ret = some r → m.object ∈ s.pointsTo r

/-- **All calls are resolved.** -/
structure Resolved (s : Solver) : Prop where
  /-- An object of a function in the set of a function pointer makes the function a callee. -/
  target : ∀ {i site o callee}, s.sites[i]? = some site → o ∈ s.pointsTo site.funPtr →
    s.functions.forObject? o = some callee → s.calls.hasEdge i callee.id = true
  /-- Every callee is a function that is served. -/
  served : ∀ {i site f}, s.sites[i]? = some site → f ∈ s.calls.calleesOf i →
    ∃ callee, s.functions.get? f = some callee ∧ s.Served site callee

/-- In a closed state chains of copies lie in one class, so that every connected callee is
served. -/
theorem Honoured.served (h : s.Honoured) (hclosed : s.Closed) (hc : s.Connected site callee) :
    s.Served site callee := by
  have hlinked : ∀ {a b}, s.Linked a b → s.Same a b := fun hab => hab.same_of_copies hclosed.copy
  refine ⟨fun hflow => hlinked (h.flow hc hflow), fun hkind halloc => ?_⟩
  obtain ⟨m, hm⟩ := h.made hc hkind halloc
  refine ⟨m, hm, fun r hr => ?_⟩
  have hhoused := h.furnished _ _ hm
  have hsame : s.Same m.value r := hlinked (hhoused.value hc.registered hr)
  rw [mem_pointsTo, ← hsame]
  exact hhoused.object

/-- **What holds of the result of an analysis** that began in another state. -/
structure Finished (base s : Solver) : Prop where
  grows : base.Grows s
  coherent : s.Coherent
  contained : s.Contained
  closed : s.Closed
  honoured : s.Honoured

theorem finished_analyze (hs : s.Coherent) (hc : s.Contained) (hh : s.Honoured)
    (hok : s.analyze.2 = .ok ()) : s.Finished s.analyze.1 := by
  have hsteps : Steps .analysis s s.analyze.1 :=
    Analysis.steps_run (a := ⟨s, .builtin, ()⟩) (Licence.le_refl _) hs
  have hend := hs.steps hsteps
  exact ⟨hsteps.grows hs, hend, hc.steps hs Licence.bounded_analysis hsteps,
    (Analysis.solved_run hs hok).closed hend, hh.run hs hc .builtin ()⟩

/-! ## What a run connects -/

theorem Shows.mono (h : s.Shows i f) (hst : s.Grows t) : t.Shows i f := by
  obtain ⟨site, o, callee, hsite, ho, hcallee, hf⟩ := h
  exact ⟨site, o, callee, hst.sites ▸ hsite, hst.pointsTo ho, hst.functions ▸ hcallee, hf⟩

/-- **A run without a bound connects all that its sets show**: its last round has found nothing to
connect. -/
theorem hasEdge_of_shows_run (hs : s.Coherent) (hrounds : s.settings.maxCallGraphRounds = none)
    (hok : (Analysis.run ⟨s, .builtin, memory⟩).2 = .ok ())
    (hshown : (Analysis.run ⟨s, .builtin, memory⟩).1.solver.Shows i f) :
    (Analysis.run ⟨s, .builtin, memory⟩).1.solver.calls.hasEdge i f = true := by
  obtain ⟨u, t, v, rounds, hu, hround, hrun⟩ := Analysis.exists_last_round hs hrounds hok
  have ht := hu.steps (hround.steps (L := .analysis) (Licence.le_refl _) hu).1
  obtain ⟨_, hconnect⟩ := hround.connect
  rw [hrun] at hshown ⊢
  exact hasEdge_of_shows_connect (t := v) ht.registered hconnect hshown

/-- **A run connects only what its sets show**, if that held when it began. A round connects what
was shown after solving, and as the sets only grow, it is shown ever after. -/
theorem shows_of_hasEdge_run (hs : s.Coherent)
    (hbefore : ∀ i f, s.calls.hasEdge i f = true → s.Shows i f)
    (hok : (Analysis.run ⟨s, .builtin, memory⟩).2 = .ok ()) :
    ∀ i f, (Analysis.run ⟨s, .builtin, memory⟩).1.solver.calls.hasEdge i f = true →
      (Analysis.run ⟨s, .builtin, memory⟩).1.solver.Shows i f := by
  refine Analysis.run_ends (a := ⟨s, .builtin, memory⟩)
    (I := fun t => ∀ i f, t.calls.hasEdge i f = true → t.Shows i f) ?_ ?_ hs hbefore hok
  · intro u t hu hcoherent hsteps hcalls i f hedge
    exact (hu i f (hcalls ▸ hedge)).mono (hsteps.grows hcoherent)
  · intro u t v new hu hcoherent hround i f hedge
    have hsteps := hround.steps (L := .analysis) (Licence.le_refl _) hcoherent
    have ht := hcoherent.steps hsteps.1
    obtain ⟨seeded, hframe⟩ := hround.frame hcoherent
    obtain ⟨_, hconnect⟩ := hround.connect
    have hshown : t.Shows i f := by
      rcases (hasEdge_connect_newTargets ht.registered hconnect).mp hedge with hshown | hedge
      · exact hshown
      · exact (hu i f (hframe.calls ▸ hedge)).mono (hsteps.1.grows hcoherent)
    exact hshown.mono (hsteps.2.grows ht)

end Solver

variable {p : Problem} {s : Solver}

/-- **The analysis resolves all calls**, after any history of operations that name nodes of the
graph, when the rounds are not bounded; and a fresh solver then has as callees exactly the functions
that the sets of its function pointers show. -/
theorem resolved_analyze_of_reachable (hp : p.Made) (hc : p.Contained)
    (hs : Reachable .known p s) (hrounds : s.settings.maxCallGraphRounds = none)
    (hok : s.analyze.2 = .ok ()) :
    s.analyze.1.Resolved ∧ (ofProblem p = .ok s →
      ∀ i f, f ∈ s.analyze.1.calls.calleesOf i ↔ s.analyze.1.Shows i f) := by
  have hcoherent := hs.coherent hp
  have hsteps : Steps .analysis s s.analyze.1 :=
    Analysis.steps_run (a := ⟨s, .builtin, ()⟩) (Licence.le_refl _) hcoherent
  have hend := hcoherent.steps hsteps
  have hclosed : s.analyze.1.Closed := (Analysis.solved_run hcoherent hok).closed hend
  have hhonoured : s.analyze.1.Honoured :=
    (hs.honoured hp hc).run hcoherent (hs.contained hp hc) .builtin ()
  have hedge : ∀ {i f}, f ∈ s.analyze.1.calls.calleesOf i ↔
      s.analyze.1.calls.hasEdge i f = true := hend.registered.calls.hasEdge_iff.symm
  have hshown : ∀ {i f}, s.analyze.1.Shows i f → s.analyze.1.calls.hasEdge i f = true :=
    hasEdge_of_shows_run hcoherent hrounds hok
  refine ⟨⟨fun {i site o callee} hsite ho hcallee => ?_, fun {i site f} hsite hf => ?_⟩,
    fun hfresh i f => ?_⟩
  · exact hshown ⟨site, o, callee, hsite, ho, hcallee, rfl⟩
  · obtain ⟨_, callee, -, hcallee⟩ := hhonoured.named (hedge.mp hf)
    have hid := hend.registered.sites hsite
    have hname := hend.registered.functions f callee hcallee
    refine ⟨callee, hcallee, hhonoured.served hclosed ⟨?_, ?_, ?_⟩⟩
    · rwa [hid]
    · rwa [hname]
    · rw [hid, hname]
      exact hedge.mp hf
  · rw [hedge]
    refine ⟨shows_of_hasEdge_run hcoherent (fun i f hbefore => ?_) hok i f, hshown⟩
    exact absurd hbefore (not_hasEdge_ofProblem hfresh)

theorem known_sampleHistory : Reachable .known sampleProblem sampleHistory := by
  refine .apply (.connect (.ofList [(4, [3])])) (.apply (.hand (.mergeInto 5 2))
    (.apply (.hand .dequeue) (.apply .enqueueNodes (.start ofProblem_sampleProblem) ?_) ?_) ?_) ?_
  · exact fun n hn => absurd hn List.not_mem_nil
  · exact fun n hn => absurd hn List.not_mem_nil
  · unfold Scope.known
    decide +kernel
  · exact fun n hn => absurd hn List.not_mem_nil

theorem resolved_analyze_sample :
    sampleHistory.analyze.1.Resolved ∧
      (∀ i f, f ∈ sampleSolver.analyze.1.calls.calleesOf i ↔ sampleSolver.analyze.1.Shows i f) ∧
      sampleSolver.analyze.1.calls.hasEdge 0 3 = true := by
  have hhistory := resolved_analyze_of_reachable sampleProblem_made sampleProblem_plain.contained
    known_sampleHistory rfl (by decide +kernel)
  have hfresh := resolved_analyze_of_reachable sampleProblem_made sampleProblem_plain.contained
    (.start ofProblem_sampleProblem) rfl (by decide +kernel)
  exact ⟨hhistory.1, hfresh.2 ofProblem_sampleProblem, by decide +kernel⟩

end PointsTo
