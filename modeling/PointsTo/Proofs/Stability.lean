import PointsTo.Proofs.Confluence
import PointsTo.Proofs.Shortcut

/-!
# Stability

Once an analysis without a bound has ended, another one finds nothing to do. Every class waits and
is treated once more, but its copies and field addresses have left it for good, and all pairs that
its loads and stores ask for share a class already. So no class is merged, no set grows, the sets
show no callee that is not connected, and the round closes as the last one did. Only the counts of
loads, of stores and of classes taken go on.

## Main definitions

* `Counters.steady`: the counters that another analysis leaves alone
* `Solver.Calm`: all constraints hold, and nothing waits that is applied only once
* `Solver.Rests`: the result is as it was
* `Solver.Stable`: what holds of the result of an analysis without a bound

## Main results

* `calm_run`: a run that does not fail ends calm
* `Calm.treat`: treating a class of a calm state changes nothing
* `Stable.analyze`: analysing a stable state does not fail and changes nothing
* `rests_analyze_again`: a second analysis changes nothing
-/

namespace PointsTo

/-- **The counters that another analysis leaves alone**: all but those of loads, of stores and of
classes taken. -/
def Counters.steady (c : Counters) : Counters :=
  { c with loadEdgesProcessed := 0, storeEdgesProcessed := 0, worklistPops := 0 }

theorem ClassEdges.Spent.append {e f : ClassEdges} (he : e.Spent) (hf : f.Spent) :
    (e ++ f).Spent := by
  constructor
  · change e.copies ++ f.copies = []
    rw [he.1, hf.1, List.append_nil]
  · change e.geps ++ f.geps = []
    rw [he.2, hf.2, List.append_nil]

namespace Solver

variable {s t u : Solver} {edges : ClassEdges} {objects : List NodeId} {n a b o q d rep : NodeId}

/-! ## Constraints that were applied -/

/-- The copies and field addresses of a node have left its class, and none is still to be read from
the graph. -/
structure Spent (s : Solver) (n : NodeId) : Prop where
  applied : (s.edgesOf (s.representative n)).Spent
  unread : s.loaded.contains n = true ∨ (s.graph.edgesAt n).Spent

/-- Treating a class spends the constraints of its nodes. They leave the class before they are
applied; if that merges the class, it waits again. -/
theorem attained_spent : Attained Spent where
  lasts {s t n} _ _ hmoved hn := by
    refine ⟨?_, ?_⟩
    · rw [hmoved.representative, hmoved.edges]
      exact hn.applied
    · rw [hmoved.loaded, hmoved.constraints]
      exact hn.unread
  treated {s n rep} hv hrep hok h := by
    obtain ⟨-, edges, held, hspent, hvalid, hjoins, -⟩ := treat_eq_ok hv hrep hok
    have hclasses : (s.loadEdges rep).classes = s.classes := by rw [loadEdges_eq]
    have hn : (s.loadEdges rep).representative n = rep :=
      (representative_congr hclasses n).trans (Eq.trans h hrep)
    refine (Noticed.joins hjoins hvalid n).unmoved.imp_right fun hmoved => ⟨?_, .inl ?_⟩
    · rw [hmoved.representative, hmoved.edges]
      change (edgesOf { s.loadEdges rep with edges } ((s.loadEdges rep).representative n)).Spent
      rwa [hn]
    · exact hmoved.loaded.trans (loaded_of_same hv h)

/-- When an analysis starts, a class without a node of the graph has no constraints; every other one
waits. -/
theorem waiting_or_spent_start (hs : s.Coherent) (n : NodeId) :
    (Analysis.start s).Waiting n ∨ (Analysis.start s).Spent n := by
  have hreport := hs.report (.analysisStarted s.graph.nodeCount s.sites.size s.functions.size)
  by_cases hw : (Analysis.start s).Waiting n
  · exact .inl hw
  · right
    have hnone : ∀ {k m d}, s.representative m = s.representative n →
        ¬ s.graph.hasEdge k m d = true := by
      intro k m d hm hedge
      have hnode := ConstraintGraph.mem_nodeIds.mpr (hs.valid.graph.ends hedge).1
      have hwait := waiting_enqueueAll hreport.valid hnode
      rw [← Analysis.start_eq] at hwait
      refine hw (hwait.same ?_)
      rw [Analysis.start_eq, enqueueAll_eq]
      exact hm
    have hread : ∀ {m}, s.representative m = s.representative n → (s.graph.edgesAt m).Spent := by
      intro m hm
      refine ⟨List.eq_nil_iff_forall_not_mem.mpr fun e he => ?_,
        List.eq_nil_iff_forall_not_mem.mpr fun e he => ?_⟩
      · obtain ⟨d, hd, rfl⟩ := List.mem_map.mp he
        exact hnone hm (hs.valid.graph.mem_copyOut.mp hd)
      · obtain ⟨d, hd, rfl⟩ := List.mem_map.mp he
        exact hnone hm (hs.valid.graph.mem_gepOut.mp hd)
    rw [Analysis.start_eq, enqueueAll_eq]
    refine ⟨⟨List.eq_nil_iff_forall_not_mem.mpr fun e he => ?_,
      List.eq_nil_iff_forall_not_mem.mpr fun e he => ?_⟩, .inr (hread rfl)⟩
    · obtain ⟨m, -, hm, hmem⟩ := hs.valid.edges.copies.source he
      exact List.eq_nil_iff_forall_not_mem.mp (hread hm).1 e hmem
    · obtain ⟨m, -, hm, hmem⟩ := hs.valid.edges.geps.source he
      exact List.eq_nil_iff_forall_not_mem.mp (hread hm).2 e hmem

/-- **All constraints hold, and nothing waits that is applied only once.** -/
structure Calm (s : Solver) : Prop where
  settled : ∀ n, s.Settled n
  spent : ∀ n, s.Spent n

/-- **A run that does not fail ends calm**, whatever source it asks. -/
theorem calm_run {σ : Type} {a : Analysis σ} (hs : a.solver.Coherent) (hok : a.run.2 = .ok ()) :
    a.run.1.solver.Calm :=
  ⟨(Analysis.solved_run hs hok).settled,
    fun n => Analysis.attained_run attained_spent hs hok (waiting_or_spent_start hs n)⟩

theorem Calm.congr (h : s.Calm) (hgraph : t.graph = s.graph) (hclasses : t.classes = s.classes)
    (hstore : t.store = s.store) (hspent : ∀ n, t.Spent n) : t.Calm := by
  have hrep := representative_congr hclasses
  refine ⟨fun n => (h.settled n).mono hgraph (fun {x y} hxy => ?_) (hrep n) fun o => ?_, hspent⟩
  · rwa [same_congr hclasses]
  · rw [mem_pointsTo, mem_pointsTo, hrep, hstore]

theorem Calm.aside (h : s.Calm) {worklist : Worklist} {counters : Counters} {journal : List Event} :
    { s with worklist, counters, journal }.Calm :=
  h.congr rfl rfl rfl fun n => ⟨(h.spent n).applied, (h.spent n).unread⟩

/-! ## Unifying what shares a class -/

/-- Nothing has changed but the counts of loads, of stores and of classes taken. -/
def Ticks (s t : Solver) : Prop :=
  ∃ counters, counters.steady = s.counters.steady ∧ t = { s with counters }

namespace Ticks

theorem refl (s : Solver) : s.Ticks s := ⟨s.counters, rfl, rfl⟩

theorem trans (h₁ : s.Ticks t) (h₂ : t.Ticks u) : s.Ticks u := by
  obtain ⟨c, hc, rfl⟩ := h₁
  obtain ⟨c', hc', rfl⟩ := h₂
  exact ⟨c', hc'.trans hc, rfl⟩

theorem countPop (s : Solver) : s.Ticks s.countPop :=
  ⟨{ s.counters with worklistPops := s.counters.worklistPops + 1 }, rfl, rfl⟩

theorem joinedAt (h : s.Ticks t) (ho : JoinedAt edges s o) : JoinedAt edges t o := by
  obtain ⟨c, -, rfl⟩ := h
  exact ⟨ho.stores, ho.loads⟩

theorem of_spares (h : s.Spares t) : s.Ticks t := by
  obtain ⟨loads, stores, -, -, rfl⟩ := h
  exact ⟨t.counters, rfl, rfl⟩

theorem joinObject (h : JoinedAt edges s o) : s.Ticks (joinObject edges s o) :=
  of_spares (.joinObject_of_joinedAt h)

theorem joinNextObject (h : JoinedAt edges s o) : s.Ticks (joinNextObject edges s o) := by
  unfold Solver.joinNextObject
  split
  · exact joinObject h
  · split
    · exact refl s
    · exact joinObject h

theorem joinObjects (h : ∀ o ∈ objects, JoinedAt edges s o) :
    s.Ticks (joinObjects edges s objects) := by
  cases objects with
  | nil => exact refl s
  | cons o objects =>
    refine List.foldlRecOn _ _ (joinObject (h o List.mem_cons_self)) fun t ht x hx => ?_
    exact ht.trans (joinNextObject (ht.joinedAt (h x (List.mem_cons_of_mem o hx))))

/-- Loads and stores that ask for nothing new are counted, and that is all. -/
theorem applyEdges (hspent : edges.Spent)
    (h : ∀ {a b}, edges.Asks objects a b → s.Same a b) :
    s.Ticks (applyEdges edges objects s) := by
  unfold Solver.applyEdges
  rw [hspent.1, hspent.2]
  refine joinObjects fun o ho => ⟨fun q hq => ?_, fun d hd => ?_⟩
  · exact h (.inr (.inr (.inl ⟨hq, ho⟩)))
  · exact h (.inr (.inr (.inr ⟨ho, hd⟩)))

end Ticks

/-! ## Rest -/

/-- **The result is as it was**: classes, sets, graph, calls and all counts but those of loads, of
stores and of classes taken. -/
structure Rests (s t : Solver) : Prop extends s.Frame t where
  classes : t.classes = s.classes
  store : t.store = s.store
  counters : t.counters.steady = s.counters.steady

namespace Rests

/-- What waits, what was read from the graph and what is reported is no part of a result. -/
theorem aside (s : Solver) {worklist : Worklist} {edges : Std.ExtTreeMap NodeId ClassEdges}
    {loaded : Std.ExtTreeSet NodeId} {journal : List Event} :
    s.Rests { s with worklist, edges, loaded, journal } :=
  ⟨⟨rfl, rfl, rfl, rfl, rfl, rfl, rfl, rfl, rfl, rfl, rfl⟩, rfl, rfl, rfl⟩

theorem refl (s : Solver) : s.Rests s := aside s

theorem trans (h₁ : s.Rests t) (h₂ : t.Rests u) : s.Rests u :=
  ⟨h₁.toFrame.trans h₂.toFrame, h₂.classes.trans h₁.classes, h₂.store.trans h₁.store,
    h₂.counters.trans h₁.counters⟩

theorem start (s : Solver) : s.Rests (Analysis.start s) := by
  rw [Analysis.start_eq, enqueueAll_eq]
  exact aside s

theorem ticks (h : s.Ticks t) : s.Rests t := by
  obtain ⟨c, hc, rfl⟩ := h
  have hcount : ∀ f : Counters → Nat, f c.steady = f s.counters.steady := fun f => by rw [hc]
  exact ⟨⟨rfl, rfl, rfl, rfl, rfl, rfl, rfl, hcount (·.callGraphRounds),
    hcount (·.indirectCallEdges), hcount (·.dummyObjects), rfl⟩, rfl, rfl, hc⟩

theorem pointsTo (h : s.Rests t) (n : NodeId) : t.pointsTo n = s.pointsTo n := by
  unfold Solver.pointsTo
  rw [representative_congr h.classes, h.store]

theorem shows (h : s.Rests t) {i : SiteId} {f : FunctionId} : t.Shows i f ↔ s.Shows i f := by
  unfold Shows
  simp only [h.sites, h.functions, h.pointsTo]

end Rests

/-! ## Treating a class of a calm state -/

theorem Calm.same_of_demands (h : s.Calm) (hab : s.Demands a b) : s.Same a b := by
  rcases hab.rule with hcopy | hgep | ⟨p, hstore, hb⟩ | ⟨p, hload, ha⟩
  · exact (h.settled a).flow (.inl hcopy)
  · exact (h.settled a).flow (.inr hgep)
  · exact (((h.settled p).memory (.inr hstore)).2 b hb).symm
  · exact ((h.settled p).memory (.inl hload)).2 a ha

/-- A node that is read only now, such as fresh memory, has neither copies nor field addresses. -/
theorem Calm.loadEdges (h : s.Calm) (m : NodeId) :
    s.Rests (s.loadEdges m) ∧ (s.loadEdges m).Calm := by
  have hrest : s.Rests (s.loadEdges m) := by
    rw [loadEdges_eq]
    exact .aside s
  refine ⟨hrest, h.congr hrest.graph hrest.classes hrest.store fun n => ⟨?_, ?_⟩⟩
  · rw [representative_congr hrest.classes, edgesOf_loadEdges]
    split
    · rename_i hm
      exact (h.spent n).applied.append ((h.spent m).unread.resolve_left hm.2)
    · exact (h.spent n).applied
  · rw [loaded_loadEdges, hrest.graph]
    exact (h.spent n).unread.imp_left .inr

theorem Calm.taken (h : s.Calm) (rep : NodeId) :
    s.Rests (s.taken rep) ∧ (s.taken rep).Calm := by
  obtain ⟨hrest, hcalm⟩ := h.loadEdges rep
  refine ⟨hrest.trans (.aside _), hcalm.congr rfl rfl rfl fun n => ⟨?_, (hcalm.spent n).unread⟩⟩
  change ((s.taken rep).edgesOf ((s.loadEdges rep).representative n)).Spent
  by_cases hn : (s.loadEdges rep).representative n = rep
  · rw [hn]
    exact s.spent_taken rep
  · rw [edgesOf_taken hn]
    exact (hcalm.spent n).applied

/-- **Treating a class of a calm state changes nothing.** Loads and stores are all that is left, and
what they ask for is unified. -/
theorem Calm.treat (h : s.Calm) (hv : s.Valid) (hrep : s.representative rep = rep) :
    s.Rests (s.treat rep).1 ∧ (s.treat rep).1.Calm := by
  obtain ⟨hload, hcalm⟩ := h.loadEdges rep
  rcases s.treat_cases rep with ⟨heq | heq, -⟩ | ⟨-, -, heq⟩ | ⟨-, hknown, heq⟩
  · rw [heq]
    exact ⟨.refl s, h⟩
  · rw [heq]
    exact ⟨hload, hcalm⟩
  · rw [heq]
    exact ⟨hload, hcalm⟩
  · obtain ⟨htaken, hcalm'⟩ := h.taken rep
    have hspent := (hcalm.spent rep).applied
    rw [representative_congr hload.classes, hrep] at hspent
    have hticks : (s.taken rep).Ticks (s.treat rep).1 := by
      rw [heq]
      refine .applyEdges hspent fun {a b} hab => ?_
      rw [same_congr htaken.classes]
      exact h.same_of_demands (demands_of_asks_loadEdges hv hrep hknown hab)
    refine ⟨htaken.trans (.ticks hticks), ?_⟩
    obtain ⟨c, -, ht⟩ := hticks
    rw [ht]
    exact hcalm'.aside

/-! ## Stable states -/

/-- **What holds of the result of an analysis without a bound**: it is calm, all callees that its
sets show are connected, closing a round once more moves no site, and the classes are counted. -/
structure Stable (s : Solver) : Prop where
  coherent : s.Coherent
  contained : s.Contained
  calm : s.Calm
  seeded : s.seeded = true
  connected : ∀ {i f}, s.Shows i f → s.calls.hasEdge i f = true
  closed : (s.calls.recordRound ∅ s.siteIds).1 = s.calls
  counted : s.Counted

namespace Stable

/-- A stable state stays stable at rest, as long as it is calm. -/
theorem rests (h : s.Stable) (hst : s.Rests t) (hsteps : Steps .analysis s t) (hcalm : t.Calm) :
    t.Stable where
  coherent := h.coherent.steps hsteps
  contained := h.contained.steps h.coherent Licence.bounded_analysis hsteps
  calm := hcalm
  seeded := hst.seeded.trans h.seeded
  connected hshown := by
    rw [hst.calls]
    exact h.connected (hst.shows.mp hshown)
  closed := by
    unfold siteIds
    rw [hst.calls, hst.sites]
    exact h.closed
  counted := by
    change t.counters.steady.equivalenceClasses = _
    rw [hst.counters, hst.classes, hst.graph]
    exact h.counted

theorem report (h : s.Stable) (e : Event) : (s.report e).Stable :=
  h.rests (.aside s) (.single (.note rfl rfl)) h.calm.aside

theorem start (h : s.Stable) : (Analysis.start s).Stable := by
  refine h.rests (.start s) (Analysis.steps_start s) ?_
  rw [Analysis.start_eq, enqueueAll_eq]
  exact h.calm.aside

/-- Taking a class and treating it changes nothing. -/
theorem treat (h : s.Stable) (hd : s.dequeue? = some (rep, t)) :
    s.Rests (t.countPop.treat rep).1 ∧ (t.countPop.treat rep).1.Stable := by
  have hv := h.coherent.valid
  have hrep := representative_of_dequeue? hv hd
  have hvt : t.countPop.Valid := (hv.dequeue? hd).congr rfl rfl rfl rfl rfl
  have hpop : s.Rests t.countPop ∧ t.countPop.Calm := by
    obtain ⟨m, w, -, -, rfl⟩ := dequeue?_cases hd
    exact ⟨(Rests.aside s).trans (.ticks (.countPop _)), h.calm.aside⟩
  obtain ⟨hrest, hcalm⟩ := hpop.2.treat hvt hrep
  exact ⟨hpop.1.trans hrest, h.rests (hpop.1.trans hrest) (steps_of_dequeue? hv hd) hcalm⟩

/-- **Solving a stable state does not fail and changes nothing.** The address edges were looked at
before, so that only the drain is left. -/
theorem solve (h : s.Stable) : ∃ t, s.solve = (t, .ok ()) ∧ s.Rests t ∧ t.Stable := by
  have hsolve : s.solve = drain s.drainBound s := if_pos h.seeded
  have hok : s.solve.2 = .ok () := by
    rw [hsolve]
    exact drain_ok h.coherent h.contained _
  refine ⟨s.solve.1, Prod.ext rfl hok, ?_⟩
  rw [hsolve]
  refine drain_keeps (I := fun t => s.Rests t ∧ t.Stable) h.coherent ?_ ⟨.refl s, h⟩ _
  rintro u v rep - ⟨hsu, hu⟩ hd
  obtain ⟨hrest, hstable⟩ := hu.treat hd
  exact ⟨hsu.trans hrest, hstable⟩

/-- **The sets of a stable state show nothing new**, and connecting nothing changes nothing. A new
callee would have been shown, and whatever is shown is connected. -/
theorem connect (h : s.Stable) :
    ∃ t, s.connect s.newTargets = (t, .ok false) ∧ s.Rests t ∧ t.Stable := by
  have hr := h.coherent.registered
  obtain ⟨new, hnew⟩ := connect_newTargets_ok hr
  cases new with
  | true =>
    have hconnect : s.connect s.newTargets = ((s.connect s.newTargets).1, .ok true) :=
      Prod.ext rfl hnew
    obtain ⟨pair, hleft, hedge⟩ := gains_of_connect hr hconnect
    refine absurd ?_ (Finset.mem_filter.mp hleft).2
    exact ((hasEdge_connect_newTargets hr hconnect).mp hedge).elim h.connected id
  | false =>
    have hconnect : s.connect s.newTargets = ((s.connect s.newTargets).1, .ok false) :=
      Prod.ext rfl hnew
    obtain ⟨heq, -⟩ := connect_eq_false hr hconnect
    rw [h.closed] at heq
    have hrest : s.Rests (s.connect s.newTargets).1 := by
      rw [heq]
      exact .aside s
    refine ⟨_, hconnect, hrest,
      h.rests hrest (steps_connect (Licence.le_refl _) h.coherent s.newTargets) ?_⟩
    rw [heq]
    exact h.calm.aside

/-- Finishing adds no round, and the classes were counted when there were as many. -/
theorem finish (h : s.Stable) : s.Rests (Analysis.finish s 0) := by
  refine ⟨⟨rfl, rfl, rfl, rfl, rfl, rfl, rfl, rfl, rfl, rfl, rfl⟩, rfl, rfl, ?_⟩
  have hcount := h.counted
  unfold Counted at hcount
  change ({ s.counters with
    callGraphRounds := s.counters.callGraphRounds + 0
    equivalenceClasses := s.classes.countClasses s.graph.nodeIds } : Counters).steady = _
  rw [← hcount]
  rfl

/-- **Analysing a stable state does not fail and changes nothing.** -/
theorem analyze (h : s.Stable) : s.analyze.2 = .ok () ∧ s.Rests s.analyze.1 := by
  obtain ⟨t, hsolve, hst, ht⟩ := (h.start.report (.roundStarted 0)).solve
  obtain ⟨u, hconnect, htu, hu⟩ := ht.connect
  have hrun := Analysis.runRounds_of_round (a := ⟨Analysis.start s, .builtin, ()⟩) hsolve hconnect
    (Analysis.start s).pairBound
  rw [analyze_of_runRounds hrun]
  refine ⟨rfl, ?_⟩
  exact (Rests.start s).trans (((Rests.aside _).trans (hst.trans htu)).trans hu.finish)

end Stable

/-- **An analysis without a bound ends in a stable state**, unless it fails. The last round
connected nothing, so it has closed itself with no site connected. -/
theorem stable_analyze (hs : s.Coherent) (hc : s.Contained)
    (hrounds : s.settings.maxCallGraphRounds = none) (hok : s.analyze.2 = .ok ()) :
    s.analyze.1.Stable := by
  have hsteps : Steps .analysis s s.analyze.1 :=
    Analysis.steps_run (a := ⟨s, .builtin, ()⟩) (Licence.le_refl _) hs
  obtain ⟨u, t, v, rounds, hu, hround, hrun⟩ :=
    Analysis.exists_last_round (a := ⟨s, .builtin, ()⟩) hs hrounds hok
  change s.analyze.1 = Analysis.finish v rounds at hrun
  have ht := hu.steps (hround.steps (L := .analysis) (Licence.le_refl _) hu).1
  obtain ⟨memory, hconnect⟩ := hround.connect
  refine ⟨hs.steps hsteps, hc.steps hs Licence.bounded_analysis hsteps, calm_run hs hok,
    (Analysis.solved_run hs hok).seeded, hasEdge_of_shows_run hs hrounds hok, ?_, ?_⟩
  · obtain ⟨heq, -⟩ := connect_eq_false ht.registered hconnect
    rw [hrun, heq]
    exact CallGraph.recordRound_recordRound ..
  · rw [hrun]
    exact counted_finish v rounds

end Solver

open Solver

variable {p : Problem} {s : Solver}

/-- **A second analysis changes nothing**, after any history of operations that name nodes of the
graph, when the rounds are not bounded: it does not fail, and classes, sets, callees and states of
sites, memory of calls, the graph and all counts but those of loads, of stores and of classes taken
are as they were. -/
theorem rests_analyze_again (hp : p.Made) (hc : p.Contained) (hs : Reachable .known p s)
    (hrounds : s.settings.maxCallGraphRounds = none) (hok : s.analyze.2 = .ok ()) :
    s.analyze.1.analyze.2 = .ok () ∧ s.analyze.1.Rests s.analyze.1.analyze.1 :=
  (stable_analyze (hs.coherent hp) (hs.contained hp hc) hrounds hok).analyze

/-- The second analysis does treat classes, but to no effect. -/
theorem rests_analyze_again_sample :
    sampleHistory.analyze.1.counters.worklistPops <
        sampleHistory.analyze.1.analyze.1.counters.worklistPops ∧
      sampleHistory.analyze.1.analyze.2 = .ok () ∧
      sampleHistory.analyze.1.Rests sampleHistory.analyze.1.analyze.1 :=
  ⟨by decide +kernel,
    rests_analyze_again sampleProblem_made sampleProblem_plain.contained known_sampleHistory rfl
      (by decide +kernel)⟩

end PointsTo
