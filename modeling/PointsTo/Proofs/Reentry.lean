import PointsTo.Proofs.Resolution
import PointsTo.Solver.Playback

/-!
# Connecting callees from outside

Callees may be connected by hand, round by round, with targets that no points-to set shows, and the
classes be solved afterwards. A round makes those classes wait in which one of its new copies
starts, and nothing else.

After an analysis that is enough: whatever a round does to a class is noticed, so that solving
restores the fixpoint and the flow of every callee that was named is unified. In a fresh solver it
is not, since no class waits there: a copy that the graph holds already is not new, and unless
something else wakes its source it is never applied, although the callee counts as connected.

## Main definitions

* `Solver.Updates`: rounds with given targets, none of which is refused
* `Solver.Resumable`: a state in which every class that needs it waits
* `Solver.Fused`: a callee that is served, its memory being in the class of the result
* `Solver.Woken`: what makes the class of a node be treated in a fresh solver

## Main results

* `Resumable.updates`, `Resumable.solve`: rounds keep a state resumable, and solving closes it
* `restores_after_run`: rounds after an analysis, and solving, restore the fixpoint
* `same_iff_woken_fresh`: which pairs a round and solving unify in a fresh solver
-/

namespace PointsTo

open Solver

namespace Solver

variable {s t u : Solver} {targets : CallEdges} {rounds : List CallEdges} {new : Bool} {i : SiteId}
  {f : FunctionId} {site : CallSite} {callee : FunctionDecl} {a b n : NodeId}

/-! ## Rounds -/

/-- **Rounds with given targets**, one after the other, none of which is refused. -/
inductive Updates : Solver → List CallEdges → Solver → Prop
  | done {s : Solver} : Updates s [] s
  | round {s t u : Solver} {targets : CallEdges} {rounds : List CallEdges} {new : Bool} :
      s.connect targets = (t, .ok new) → Updates t rounds u → Updates s (targets :: rounds) u

/-- The callees that a round names are connected afterwards. -/
theorem connected_of_connect (hr : s.Registered) (h : s.connect targets = (t, .ok new))
    (hf : f ∈ targets.get i) :
    ∃ site callee, s.sites[i]? = some site ∧ s.functions.get? f = some callee ∧
      t.calls.hasEdge i f = true := by
  obtain ⟨site, callee, hsite, hcallee⟩ :
      ∃ site callee, s.sites[i]? = some site ∧ s.functions.get? f = some callee := by
    rcases connect_cases hr targets with ⟨e, -, heq⟩ | ⟨pairs, hresolve, -⟩
    · rw [h] at heq
      cases heq
    · exact exists_of_resolve hresolve hf
  exact ⟨site, callee, hsite, hcallee,
    (hasEdge_connect hr h).mpr (.inl ⟨site, callee, hsite, hcallee, hf⟩)⟩

/-- **A state from which solving reaches a fixpoint**: every class that needs it waits, and the flow
of every connected callee is there. -/
structure Resumable (s : Solver) : Prop where
  coherent : s.Coherent
  contained : s.Contained
  honoured : s.Honoured
  poised : s.Poised

namespace Resumable

/-- A round keeps a state resumable. -/
theorem connect (h : s.Resumable) (hconnect : s.connect targets = (t, .ok new)) : t.Resumable := by
  have hsteps := steps_connect (Licence.le_refl .analysis) h.coherent targets
  have hhonoured := h.honoured.connect h.coherent h.contained targets
  have hpoised := fun n => attained_settled.connect h.coherent targets (h.poised n)
  rw [hconnect] at hsteps hhonoured hpoised
  exact ⟨h.coherent.steps hsteps, h.contained.steps h.coherent Licence.bounded_analysis hsteps,
    hhonoured, hpoised⟩

/-- **Rounds keep a state resumable**, and connect every callee that they name. -/
theorem updates (h : s.Resumable) (hup : Updates s rounds t) :
    t.Resumable ∧ s.Grows t ∧ ∀ targets ∈ rounds, ∀ i f, f ∈ targets.get i →
      ∃ site callee, t.sites[i]? = some site ∧ t.functions.get? f = some callee ∧
        t.calls.hasEdge i f = true := by
  induction hup with
  | @done s => exact ⟨h, .refl s, fun targets hmem => absurd hmem List.not_mem_nil⟩
  | @round s t u targets rounds new hconnect _ ih =>
    obtain ⟨hu, htu, hrest⟩ := ih (h.connect hconnect)
    have hst : s.Grows t := by
      have hsteps := steps_connect (Licence.le_refl .analysis) h.coherent targets
      rw [hconnect] at hsteps
      exact hsteps.grows h.coherent
    refine ⟨hu, hst.trans htu, fun targets' hmem i f hf => ?_⟩
    rcases List.mem_cons.mp hmem with rfl | hmem
    · obtain ⟨site, callee, hsite, hcallee, hedge⟩ :=
        connected_of_connect h.coherent.registered hconnect hf
      refine ⟨site, callee, ?_, ?_, htu.calls hedge⟩
      · rwa [htu.sites, hst.sites]
      · rwa [htu.functions, hst.functions]
    · exact hrest targets' hmem i f hf

end Resumable

/-- **A callee that is served, its memory being in the class of the result.** -/
structure Fused (s : Solver) (site : CallSite) (callee : FunctionDecl) : Prop
    extends s.Served site callee where
  value : ∀ {m r}, s.allocation? site.id = some m → site.ret = some r →
    s.representative m.value = s.representative r

theorem Honoured.fused (h : s.Honoured) (hclosed : s.Closed) (hc : s.Connected site callee) :
    s.Fused site callee where
  toServed := h.served hclosed hc
  value hm hr := ((h.furnished _ _ hm).value hc.registered hr).same_of_copies hclosed.copy

/-- **Solving a resumable state closes it**, and every connected callee is fused. -/
theorem Resumable.solve (h : s.Resumable) (hsolve : s.solve = (t, .ok ())) :
    t.Closed ∧ s.Grows t ∧ ∀ site callee, t.Connected site callee → t.Fused site callee := by
  have hsteps := steps_solve (L := .analysis) h.coherent
  have hsolved := solved_solve h.coherent h.poised (by rw [hsolve])
  obtain ⟨seeded, hframe⟩ := frame_solve h.coherent
  rw [hsolve] at hsteps hsolved hframe
  have hgrows := hsteps.grows h.coherent
  have hclosed := hsolved.closed (h.coherent.steps hsteps)
  have hhonoured : t.Honoured := h.honoured.frame hgrows hframe.calls hframe.allocations
  exact ⟨hclosed, hgrows, fun site callee hc => hhonoured.fused hclosed hc⟩

theorem resumable_run (hs : s.Coherent) (hc : s.Contained) (hh : s.Honoured) {σ : Type}
    (source : TargetSource σ) (memory : σ)
    (hok : (Analysis.run ⟨s, source, memory⟩).2 = .ok ()) :
    (Analysis.run ⟨s, source, memory⟩).1.solver.Resumable := by
  have hsteps := Analysis.steps_run (a := ⟨s, source, memory⟩) (Licence.le_refl .analysis) hs
  have hsolved := Analysis.solved_run (a := ⟨s, source, memory⟩) hs hok
  exact ⟨hs.steps hsteps, hc.steps hs Licence.bounded_analysis hsteps, hh.run hs hc source memory,
    fun n => .inr (hsolved.settled n)⟩

end Solver

section AfterRun

variable {p : Problem} {s t u : Solver} {rounds : List CallEdges}

/-- **Rounds after an analysis, and solving, restore the fixpoint**: whatever callees are connected,
however many rounds it takes, the state is closed again, with the copies that were added, and every
callee that was named is fused. -/
theorem restores_after_run (hp : p.Made) (hc : p.Contained) (hs : Reachable .known p s) {σ : Type}
    (source : TargetSource σ) (memory : σ)
    (hok : (Analysis.run ⟨s, source, memory⟩).2 = .ok ())
    (hup : Updates (Analysis.run ⟨s, source, memory⟩).1.solver rounds t)
    (hsolve : t.solve = (u, .ok ())) :
    u.Closed ∧ ∀ targets ∈ rounds, ∀ i f, f ∈ targets.get i →
      ∃ site callee, u.sites[i]? = some site ∧ u.functions.get? f = some callee ∧
        u.Fused site callee := by
  have hrun := resumable_run (hs.coherent hp) (hs.contained hp hc) (hs.honoured hp hc) source memory
    hok
  obtain ⟨ht, -, hconnected⟩ := hrun.updates hup
  obtain ⟨hclosed, htu, hfused⟩ := ht.solve hsolve
  refine ⟨hclosed, fun targets hmem i f hf => ?_⟩
  obtain ⟨site, callee, hsite, hcallee, hedge⟩ := hconnected targets hmem i f hf
  obtain rfl := ht.coherent.registered.sites hsite
  obtain rfl := ht.coherent.registered.functions _ _ hcallee
  rw [← htu.sites] at hsite
  rw [← htu.functions] at hcallee
  exact ⟨site, callee, hsite, hcallee, hfused site callee ⟨hsite, hcallee, htu.calls hedge⟩⟩

/-- The sample after an analysis that connects nothing. -/
def sampleUnconnected : Solver :=
  (Analysis.run ⟨sampleHistory, Playback.source, { thenBuiltin := false }⟩).1.solver

/-- The same after two rounds, one for each site. -/
def sampleUpdated : Solver :=
  ((sampleUnconnected.connect (.ofList [(0, [3])])).1.connect (.ofList [(1, [3])])).1

theorem restores_after_run_sample :
    ¬ sampleUnconnected.calls.hasEdge 0 3 = true ∧ sampleUpdated.solve.2 = .ok () ∧
      sampleUpdated.solve.1.Closed ∧
      ∃ site callee, sampleUpdated.solve.1.sites[1]? = some site ∧
        sampleUpdated.solve.1.functions.get? 3 = some callee ∧
        sampleUpdated.solve.1.Fused site callee := by
  have hfirst : sampleUnconnected.connect (.ofList [(0, [3])]) =
      ((sampleUnconnected.connect (.ofList [(0, [3])])).1, .ok true) :=
    Prod.snd_eq_iff.mp (by decide +kernel)
  have hsecond : (sampleUnconnected.connect (.ofList [(0, [3])])).1.connect (.ofList [(1, [3])]) =
      (sampleUpdated, .ok true) := Prod.ext (by rw [sampleUpdated]) (by decide +kernel)
  have hsolve : sampleUpdated.solve = (sampleUpdated.solve.1, .ok ()) :=
    Prod.snd_eq_iff.mp (by decide +kernel)
  obtain ⟨hclosed, hfused⟩ := restores_after_run sampleProblem_made sampleProblem_plain.contained
    known_sampleHistory Playback.source { thenBuiltin := false } (by decide +kernel)
    (.round hfirst (.round hsecond .done)) hsolve
  have hnamed : 3 ∈ ((CallEdges.ofList [(1, [3])]).get 1).toList := by decide +kernel
  refine ⟨by decide +kernel, by rw [hsolve], hclosed, ?_⟩
  exact hfused (.ofList [(1, [3])]) (by simp) 1 3 hnamed

end AfterRun

/-! ## Fresh solvers -/

namespace Solver

variable {s t u : Solver} {targets : CallEdges} {new : Bool} {site : CallSite}
  {callee : FunctionDecl} {a b : NodeId}

/-- Whoever was loaded is settled, or waits. -/
theorem attained_settled_of_loaded :
    Attained fun s n => s.loaded.contains n = true → s.Settled n where
  lasts hs ht hmoved hn hloaded := hmoved.settled hs.graph ht.graph (hn (hmoved.loaded ▸ hloaded))
  treated hv hrep hok h := (waiting_or_settled_treat hv hrep hok h).imp_right fun hn _ => hn

/-- Treating a class loads its nodes. -/
theorem attained_loaded : Attained fun s n => s.loaded.contains n = true where
  lasts _ _ hmoved hn := hmoved.loaded.trans hn
  treated hv hrep hok h := by
    obtain ⟨-, edges, held, -, hvalid, hjoins, -⟩ := treat_eq_ok hv hrep hok
    exact (Noticed.joins hjoins hvalid _).unmoved.imp_right fun hmoved =>
      hmoved.loaded.trans (loaded_of_same hv h)

/-- When no callee was connected before a round, all that it connects is copied: nothing merges
during a round. -/
theorem copied_connect (hs : s.Coherent) (hg : s.Grounded)
    (hnone : ∀ i f, ¬ s.calls.hasEdge i f = true) (h : s.connect targets = (t, .ok new))
    (hc : t.Connected site callee) (hflow : CallFlow t.settings site callee a b) :
    t.Copied a b := by
  rcases connect_cases hs.registered targets with ⟨e, -, heq⟩ | ⟨pairs, hresolve, heq⟩
  · rw [h] at heq
    cases heq
  · rw [h] at heq
    obtain ⟨rfl, -⟩ := Prod.mk.inj heq
    have hkeeps := (connectPairs_keeps (r := { solver := s }) (I := fun r =>
      Steps .analysis s r.solver ∧ r.solver.Grounded ∧ ∀ {site callee a b},
        r.solver.Connected site callee → CallFlow r.solver.settings site callee a b →
          r.solver.Copied a b) (hs.registered.sites_of_resolve hresolve) ?_
      ⟨.refl, hg, fun hc => absurd hc.edge (hnone _ _)⟩).1
    · obtain ⟨-, -, hcopied⟩ := hkeeps
      rw [closeRound_eq, enqueueAll_eq] at hflow ⊢
      refine hcopied ⟨?_, ?_, (hasEdge_closeRound ..).symm.trans hc.edge⟩ hflow
      · have hsite := hc.registered
        rwa [closeRound_eq, enqueueAll_eq] at hsite
      · have hcallee := hc.declared
        rwa [closeRound_eq, enqueueAll_eq] at hcallee
    · rintro r site callee hmem ⟨hsteps, hground, hcopied⟩ hnew
      obtain ⟨hsite, hcallee, -⟩ := (mem_pairs_of_resolve hs.registered hresolve).mp hmem
      have hr := (hs.steps hsteps).registered
      have hgrows := hsteps.grows hs
      have hwiring := wiring_extend r site callee
      rw [← hgrows.sites] at hsite
      rw [← hgrows.functions] at hcallee
      refine ⟨hsteps.trans (steps_extend (Licence.le_refl _) (hs.steps hsteps) hsite hcallee hnew),
        Grounded.wiring (u := (r.solver.addCallee site callee, r.added)) hground hwiring, ?_⟩
      intro site' callee' a b hc hflow
      rw [hwiring.frame.settings] at hflow
      rcases connected_extend hr hsite hcallee hc with ⟨rfl, rfl⟩ | hold
      · exact copied_extend hr hground hsite hcallee hflow
      · exact Copied.wiring (u := (r.solver.addCallee site callee, r.added)) (hcopied hold hflow)
          hwiring

/-- **What makes the class of `a` be treated** when a fresh solver `s` is connected into `t` and
solved into `u`. A pair that shares a class was merged, so its source counts as woken by that alone;
what the other two cases and a merge with a third node say is when a pair comes to share a class. -/
inductive Woken (s t u : Solver) (a : NodeId) : Prop
  /-- An address edge leads to it. -/
  | pointer {o : NodeId} : (o, a) ∈ s.addressEdges → Woken s t u a
  /-- A copy from it is new. -/
  | source {d : NodeId} : t.graph.hasEdge .copy a d = true →
      ¬ s.graph.hasEdge .copy a d = true → Woken s t u a
  /-- It was merged with another node. -/
  | merged {c : NodeId} : c ≠ a → u.representative c = u.representative a → Woken s t u a

/-- The source of a new copy waits. -/
theorem waiting_of_new_copy (hs : s.graph.Valid) (ht : t.graph.Valid) (h : s.Noticed t a)
    (hedge : t.graph.hasEdge .copy a b = true) (hnew : ¬ s.graph.hasEdge .copy a b = true) :
    t.Waiting a := by
  refine h.unmoved.resolve_right fun hmoved => hnew ?_
  rw [← hs.mem_copies, ← hmoved.constraints]
  exact ht.mem_copies.mpr hedge

/-- A class that something wakes is treated. -/
theorem Woken.loaded (h : Woken s t u a) (hs : s.Coherent) (hseeded : s.seeded = false)
    (hconnect : s.connect targets = (t, .ok new)) (hsolve : t.solve = (u, .ok ())) :
    u.loaded.contains a = true := by
  have hsteps := steps_connect (Licence.le_refl .analysis) hs targets
  have hnoticed := Noticed.connect hs.valid hs.registered targets a
  have hstill := connect_still hs.registered targets
  rw [hconnect] at hsteps hnoticed hstill
  have ht := hs.steps hsteps
  have hok : t.solve.2 = .ok () := by rw [hsolve]
  have hsteps' := steps_solve (L := .analysis) ht
  rw [hsolve] at hsteps'
  cases h with
  | pointer hedge =>
    rw [← (hsteps.grows hs).addressEdges] at hedge
    have h := attained_loaded.solve_pointer ht hok (hstill.2.trans hseeded) hedge
    rwa [hsolve] at h
  | source hedge hnew =>
    have h := attained_loaded.solve ht hok
      (.inl (waiting_of_new_copy hs.valid.graph ht.valid.graph hnoticed hedge hnew))
    rwa [hsolve] at h
  | merged hne hsame =>
    exact (ht.steps hsteps').valid.edges.loaded hsame.symm hne.symm

/-- In a fresh solver every node is alone in its class, and none was loaded. -/
theorem alone_ofProblem {p : Problem} (h : ofProblem p = .ok s) :
    (∀ n, s.representative n = n) ∧ (∀ n, ¬ s.loaded.contains n = true) ∧ s.seeded = false := by
  obtain ⟨-, -, rfl⟩ := ofProblem_eq_ok h
  exact ⟨fun n => Partition.find_empty n, fun n => by simp, rfl⟩

end Solver

variable {p : Problem} {s t u : Solver} {targets : CallEdges} {new : Bool} {i : SiteId}
  {f : FunctionId}

/-- **Which pairs a round and solving unify in a fresh solver**: a pair that flows together shares a
class, unless the graph held the copy between the two before and nothing wakes the class of its
source. That a pair with one class is woken is immediate, since it was merged; the content is the
other direction, that a class which anything wakes is treated and its held copies are applied. After
the round a copy leads from `a` to `b`, held before or new. -/
theorem same_iff_woken_fresh (hp : p.Made) (hs : ofProblem p = .ok s)
    (hconnect : s.connect targets = (t, .ok new)) (hsolve : t.solve = (u, .ok ()))
    (hf : f ∈ targets.get i) :
    ∃ site callee, s.sites[i]? = some site ∧ s.functions.get? f = some callee ∧
      ∀ a b, CallFlow s.settings site callee a b →
        (u.representative a = u.representative b ↔
          (s.graph.hasEdge .copy a b = true → a ≠ b → Woken s t u a)) := by
  have hcoherent := coherent_ofProblem hp hs
  obtain ⟨halone, hunloaded, hseeded⟩ := alone_ofProblem hs
  have hsteps := steps_connect (Licence.le_refl .analysis) hcoherent targets
  have hnoticed := Noticed.connect hcoherent.valid hcoherent.registered targets
  have hstill := connect_still hcoherent.registered targets
  rw [hconnect] at hsteps hnoticed hstill
  have ht := hcoherent.steps hsteps
  have hst := hsteps.grows hcoherent
  have hsteps' := steps_solve (L := .analysis) ht
  have hsettled : ∀ n, t.solve.1.loaded.contains n = true → t.solve.1.Settled n := fun n =>
    attained_settled_of_loaded.solve ht (by rw [hsolve])
      (attained_settled_of_loaded.noticed hcoherent.valid ht.valid (hnoticed n)
        (.inr fun hloaded => absurd hloaded (hunloaded n)))
  rw [hsolve] at hsteps' hsettled
  have hgrounded : s.Grounded := fun n hne => absurd (halone n) hne
  obtain ⟨site, callee, hsite, hcallee, hedge⟩ :=
    connected_of_connect hcoherent.registered hconnect hf
  have hconnected : t.Connected site callee := by
    obtain rfl := hcoherent.registered.sites hsite
    obtain rfl := hcoherent.registered.functions _ _ hcallee
    exact ⟨hst.sites ▸ hsite, hst.functions ▸ hcallee, hedge⟩
  refine ⟨site, callee, hsite, hcallee, fun a b hflow => ⟨fun hsame _ hne => ?_, fun hwoken => ?_⟩⟩
  · exact .merged hne.symm hsame.symm
  · by_cases hne : a = b
    · rw [hne]
    have hcopied := copied_connect hcoherent hgrounded (fun i f => not_hasEdge_ofProblem hs)
      hconnect hconnected (hst.settings ▸ hflow)
    unfold Copied at hcopied
    rw [same_congr hstill.1, representative_congr hstill.1, representative_congr hstill.1, halone,
      halone] at hcopied
    have hcopy : t.graph.hasEdge .copy a b = true := by
      refine hcopied.resolve_left fun hsame => hne ?_
      rwa [Same, halone, halone] at hsame
    have hwake : Woken s t u a := by
      by_cases hheld : s.graph.hasEdge .copy a b = true
      · exact hwoken hheld hne
      · exact .source hcopy hheld
    have hloaded := hwake.loaded hcoherent hseeded hconnect hsolve
    exact (hsettled a hloaded).flow (.inl ((hsteps'.grows ht).copies hcopy))

/-- A function with one parameter and a call of it with one argument, over four nodes. -/
def heldProblem (constraints : List Constraint) : Problem where
  graph := ((ConstraintGraph.ofKinds [.value, .value, .object, .value]).insertAll constraints).1
  functions := .ofList [{ id := 1, name := "F", object := 2, formals := [3] }]
  sites := [{ id := 10, kind := .call, funPtr := 0, args := [1] }]

/-- Its solver. -/
def heldSolver (constraints : List Constraint) : Solver where
  settings := {}
  graph := ((ConstraintGraph.ofKinds [.value, .value, .object, .value]).insertAll constraints).1
  outsideAddresses := []
  store := ∅
  worklist := .empty .fifo
  functions := .ofList [{ id := 1, name := "F", object := 2, formals := [3] }]
  sites := sitesById [{ id := 10, kind := .call, funPtr := 0, args := [1] }]

/-- The solver after the call was connected. -/
def heldConnected (constraints : List Constraint) : Solver :=
  ((heldSolver constraints).connect (.ofList [(10, [1])])).1

/-- The copy from the argument to the parameter is held, but the argument points to an object, so
that its class is treated. -/
theorem same_iff_woken_fresh_pointer :
    (heldSolver [.copy 3 1, .addr 1 2]).graph.hasEdge .copy 1 3 = true ∧
      (heldConnected [.copy 3 1, .addr 1 2]).solve.1.representative 1 =
        (heldConnected [.copy 3 1, .addr 1 2]).solve.1.representative 3 := by
  have hmade : (heldProblem [.copy 3 1, .addr 1 2]).Made := ⟨.insertAll _ (.ofKinds _), _, rfl⟩
  have hconnect : (heldSolver [.copy 3 1, .addr 1 2]).connect (.ofList [(10, [1])]) =
      (heldConnected [.copy 3 1, .addr 1 2], .ok true) :=
    Prod.ext (by rw [heldConnected]) (by decide +kernel)
  have hsolve : (heldConnected [.copy 3 1, .addr 1 2]).solve =
      ((heldConnected [.copy 3 1, .addr 1 2]).solve.1, .ok ()) :=
    Prod.snd_eq_iff.mp (by decide +kernel)
  have hnamed : 1 ∈ ((CallEdges.ofList [(10, [1])]).get 10).toList := by decide +kernel
  obtain ⟨site, callee, hsite, hcallee, hiff⟩ :=
    same_iff_woken_fresh hmade rfl hconnect hsolve (i := 10) (f := 1) hnamed
  cases hsite
  cases hcallee
  refine ⟨by decide +kernel, (hiff 1 3 (.argument (i := 0) rfl rfl)).mpr fun _ _ => ?_⟩
  exact .pointer (o := 2) (by decide +kernel)

/-- **A held copy is left unapplied**: the call is connected without an error and the classes are
solved, but argument and parameter do not share a class. -/
theorem held_copy_unapplied :
    ofProblem (heldProblem [.copy 3 1]) = .ok (heldSolver [.copy 3 1]) ∧
      ((heldSolver [.copy 3 1]).connect (.ofList [(10, [1])])).2 = .ok true ∧
      (heldConnected [.copy 3 1]).calls.hasEdge 10 1 = true ∧
      (heldConnected [.copy 3 1]).solve.2 = .ok () ∧
      (heldConnected [.copy 3 1]).solve.1.representative 1 ≠
        (heldConnected [.copy 3 1]).solve.1.representative 3 := by
  refine ⟨rfl, ?_, ?_, ?_, ?_⟩ <;> decide +kernel

end PointsTo
