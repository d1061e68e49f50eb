import PointsTo.Proofs.Accounting
import PointsTo.Proofs.Atomicity

/-!
# How far calls are resolved

A site is unresolved as long as it has no callee. A round that connects a callee to it makes it
partially resolved, and a round that does not makes it stable, until it gains another one. Callees
and states are kept in two tables that are written at different times of a round, and the callees
are counted twice: by the call graph and by the solver. A round is connected as a whole or not at
all, so no operation leaves the tables between two states or the counts apart.

## Main definitions

* `CallGraph.pairs`: the callees connected so far, each with its site
* `Solver.TracksCalls`: the counts are the number of these pairs, and the unresolved sites are those
  without a callee
* `Solver.Gained`: a site has a callee that it did not have before
* `Solver.Advances`: how far the sites are resolved after a round

## Main results

* `Round.Extends.extend`: one more callee is counted once, and its site is noted
* `TracksCalls.connect`, `TracksCalls.advances_connect`: what a round does to counts and states
* `TracksCalls.apply`: no operation leaves counts and states behind the callees
* `tracksCalls_of_reachable`: states follow the callees in every history
-/

namespace PointsTo

namespace CallGraph

variable {g : CallGraph} {i j : SiteId} {f : FunctionId}

/-! ## Pairs of a call graph -/

/-- The callees connected so far, each with its site. -/
def pairs (g : CallGraph) : List (SiteId × FunctionId) :=
  g.callees.toList.flatMap fun entry => entry.2.toList.map (entry.1, ·)

theorem mem_pairs : (i, f) ∈ g.pairs ↔ f ∈ g.calleesOf i := by
  rw [calleesOf, Std.ExtTreeMap.getD_eq_getD_getElem?, pairs, List.mem_flatMap]
  constructor
  · rintro ⟨⟨j, callees⟩, hentry, hmem⟩
    obtain ⟨f', hf, heq⟩ := List.mem_map.mp hmem
    obtain ⟨rfl, rfl⟩ := Prod.mk.inj heq
    rw [Std.ExtTreeMap.mem_toList_iff_getElem?_eq_some.mp hentry]
    exact hf
  · intro hf
    cases hlisted : g.callees[i]? with
    | none =>
      rw [hlisted] at hf
      exact absurd hf (IdSet.not_mem_empty f)
    | some callees =>
      rw [hlisted] at hf
      exact ⟨(i, callees), Std.ExtTreeMap.mem_toList_iff_getElem?_eq_some.mpr hlisted,
        List.mem_map.mpr ⟨f, hf, rfl⟩⟩

/-- No pair is listed twice: sites differ from entry to entry, and the callees of a site ascend. -/
theorem Valid.nodup_pairs (h : g.Valid) : g.pairs.Nodup := by
  refine List.nodup_flatMap.mpr ⟨?_, ?_⟩
  · rintro ⟨i, callees⟩ hentry
    have hcallees : g.calleesOf i = callees := by
      rw [calleesOf, Std.ExtTreeMap.getD_eq_getD_getElem?,
        Std.ExtTreeMap.mem_toList_iff_getElem?_eq_some.mp hentry, Option.getD_some]
    have hnodup : callees.toList.Nodup := (hcallees ▸ h i : callees.Ascending).imp Nat.ne_of_lt
    exact hnodup.map fun f f' heq => (Prod.mk.inj heq).2
  · refine Std.ExtTreeMap.distinct_keys_toList.imp fun {x y} hne pair hx hy => ?_
    obtain ⟨f, -, rfl⟩ := List.mem_map.mp hx
    obtain ⟨f', -, heq⟩ := List.mem_map.mp hy
    exact hne (Std.LawfulEqCmp.compare_eq_iff_eq.mpr (Prod.mk.inj heq).1.symm)

/-- A callee that was not connected is one pair more. -/
theorem Valid.length_pairs_insert (h : g.Valid) (hnew : ¬ g.hasEdge i f = true) :
    (g.insert i f).1.pairs.length = g.pairs.length + 1 := by
  have hfresh : (i, f) ∉ g.pairs := fun hmem => hnew (h.hasEdge_iff.mpr (mem_pairs.mp hmem))
  have hperm : (g.insert i f).1.pairs.Perm ((i, f) :: g.pairs) := by
    refine (List.perm_ext_iff_of_nodup (h.insert i f).nodup_pairs
      (List.nodup_cons.mpr ⟨hfresh, h.nodup_pairs⟩)).mpr ?_
    rintro ⟨j, f'⟩
    rw [mem_pairs, ← (h.insert i f).hasEdge_iff, h.hasEdge_insert, List.mem_cons, mem_pairs,
      h.hasEdge_iff, Prod.mk.injEq]
  rw [hperm.length_eq, List.length_cons]

theorem edgeCount_insert (hnew : ¬ g.hasEdge i f = true) :
    (g.insert i f).1.edgeCount = g.edgeCount + 1 := by
  rw [insert, if_neg hnew]

theorem states_insert (g : CallGraph) (i : SiteId) (f : FunctionId) :
    (g.insert i f).1.states = g.states := by
  rw [insert]
  split <;> rfl

theorem pairs_recordRound (g : CallGraph) (connected : IdSet) (sites : List SiteId) :
    (g.recordRound connected sites).1.pairs = g.pairs := by
  rw [pairs, callees_recordRound, pairs]

theorem state_recordRound (g : CallGraph) (connected : IdSet) (sites : List SiteId) (i : SiteId) :
    (g.recordRound connected sites).1.state i =
      if i ∈ sites then g.nextState connected i else g.state i := by
  rw [state, Std.ExtTreeMap.getD_eq_getD_getElem?, getElem?_states_recordRound]
  split
  · rfl
  · rw [state, Std.ExtTreeMap.getD_eq_getD_getElem?]

/-! ## States after a round -/

theorem isEmpty_calleesOf_iff (g : CallGraph) (i : SiteId) :
    (g.calleesOf i).isEmpty = true ↔ g.calleesOf i = ∅ :=
  ⟨IdSet.eq_empty_of_isEmpty, fun h => by rw [h]; rfl⟩

theorem nextState_eq_partiallyResolved {connected : IdSet} :
    g.nextState connected i = .partiallyResolved ↔ connected.contains i = true := by
  unfold nextState
  split
  · simp_all
  · split <;> simp_all

theorem nextState_eq_stable {connected : IdSet} :
    g.nextState connected i = .stable ↔
      g.calleesOf i ≠ ∅ ∧ ¬ connected.contains i = true := by
  have hempty := g.isEmpty_calleesOf_iff i
  unfold nextState
  split
  · simp_all
  · split <;> simp_all

/-- A site that gained a callee has one, so it is unresolved only without callees. -/
theorem nextState_eq_unresolved {connected : IdSet}
    (hconnected : connected.contains i = true → g.calleesOf i ≠ ∅) :
    g.nextState connected i = .unresolved ↔ g.calleesOf i = ∅ := by
  have hempty := g.isEmpty_calleesOf_iff i
  unfold nextState
  split
  · simp_all
  · split <;> simp_all

end CallGraph

namespace Solver

variable {s t : Solver} {r : Round} {site : CallSite} {callee : FunctionDecl} {targets : CallEdges}
  {new : Bool} {i : SiteId}

/-! ## Counts and states -/

/-- **Counts and states follow the callees**: both counts are the number of pairs, and the
unresolved sites are those without a callee. -/
structure TracksCalls (s : Solver) : Prop where
  distinct : s.calls.pairs.Nodup
  counted : s.calls.edgeCount = s.calls.pairs.length
  booked : s.counters.indirectCallEdges = s.calls.edgeCount
  unresolved : ∀ i, s.calls.state i = .unresolved ↔ s.calls.calleesOf i = ∅
  /-- Only registered sites have callees. -/
  registered : ∀ i, s.calls.calleesOf i ≠ ∅ → i ∈ s.sites

/-- The site has a callee in `t` that it did not have in `s`. -/
def Gained (s t : Solver) (i : SiteId) : Prop :=
  ∃ f ∈ t.calls.calleesOf i, f ∉ s.calls.calleesOf i

/-- **How far registered sites are resolved after a round** from `s` to `t`. -/
structure Advances (s t : Solver) : Prop where
  partiallyResolved : ∀ {i}, i ∈ s.sites →
    (t.calls.state i = .partiallyResolved ↔ s.Gained t i)
  stable : ∀ {i}, i ∈ s.sites →
    (t.calls.state i = .stable ↔ t.calls.calleesOf i ≠ ∅ ∧ ¬ s.Gained t i)

theorem tracksCalls_ofProblem {p : Problem} (h : ofProblem p = .ok s) : s.TracksCalls := by
  obtain ⟨-, -, rfl⟩ := ofProblem_eq_ok h
  refine ⟨List.nodup_nil, rfl, rfl, fun i => ?_, fun i hne => ?_⟩
  · exact iff_of_true Std.ExtTreeMap.getD_empty (CallGraph.calleesOf_empty i)
  · exact absurd (CallGraph.calleesOf_empty i) hne

/-- Only callees, their states, their count and the sites matter. -/
theorem TracksCalls.congr (h : s.TracksCalls) (hsites : t.sites = s.sites)
    (hcalls : t.calls = s.calls)
    (hbooked : t.counters.indirectCallEdges = s.counters.indirectCallEdges) : t.TracksCalls := by
  obtain ⟨hdistinct, hcounted, hsame, hunresolved, hregistered⟩ := h
  rw [← hcalls] at hdistinct hcounted hsame hunresolved hregistered
  rw [← hsites] at hregistered
  exact ⟨hdistinct, hcounted, hbooked.trans hsame, hunresolved, hregistered⟩

theorem TracksCalls.frame (h : s.TracksCalls) (hframe : s.Frame t) : t.TracksCalls :=
  h.congr hframe.sites hframe.calls hframe.callEdges

/-- Copies and memory are no matter of callees. -/
theorem callEdges_wiring {F : NodeId → NodeId → Prop} {A : SiteId → Prop} {u v : Solver × CopySet}
    (h : Wiring F A u v) :
    v.1.counters.indirectCallEdges = u.1.counters.indirectCallEdges := by
  have hcopy : ∀ (s : Solver) (added : CopySet) (a b : NodeId),
      (s.connectCopy added a b).1.counters.indirectCallEdges =
        s.counters.indirectCallEdges := by
    intro s added a b
    rcases s.connectCopy_cases added a b with ⟨heq, -⟩ | ⟨-, -, heq⟩
    · rw [heq]
    · rw [heq]
      rfl
  refine h.keeps (I := fun v => v.1.counters.indirectCallEdges =
    u.1.counters.indirectCallEdges) (fun hw hv => ?_) rfl
  cases hw with
  | report _ | allocate _ _ _ => exact hv
  | copy _ | memory _ _ _ _ => exact (hcopy ..).trans hv

theorem TracksCalls.wiring {F : NodeId → NodeId → Prop} {A : SiteId → Prop}
    {u v : Solver × CopySet} (h : u.1.TracksCalls) (hw : Wiring F A u v) : v.1.TracksCalls :=
  h.congr hw.frame.sites hw.frame.calls (callEdges_wiring hw)

/-! ## A round -/

/-- **What a round that began in `s` has done to the calls by now**: it counted the callees, noted
the sites that gained one, and left the states for its end. -/
structure Round.Extends (s : Solver) (r : Round) : Prop where
  valid : r.solver.calls.Valid
  states : r.solver.calls.states = s.calls.states
  counted : r.solver.calls.edgeCount = r.solver.calls.pairs.length
  booked : r.solver.counters.indirectCallEdges = r.solver.calls.edgeCount
  grows : ∀ {i f}, f ∈ s.calls.calleesOf i → f ∈ r.solver.calls.calleesOf i
  sites : r.solver.sites = s.sites
  ascending : r.connected.Ascending
  gained : ∀ i, i ∈ r.connected ↔ s.Gained r.solver i
  registered : ∀ i ∈ r.connected, i ∈ s.sites

/-- **One more callee is counted once, and its site is noted.** Being new to the round, it is new to
the state in which the round began. -/
theorem Round.Extends.extend (h : r.Extends s) (hsite : site.id ∈ s.sites)
    (hnew : ¬ r.solver.calls.hasEdge site.id callee.id = true) :
    (r.extend site callee).Extends s := by
  have hcalls := calls_extend r site callee
  have hcallees : ∀ i f, f ∈ (r.extend site callee).solver.calls.calleesOf i ↔
      (i = site.id ∧ f = callee.id) ∨ f ∈ r.solver.calls.calleesOf i := by
    intro i f
    rw [hcalls, ← (h.valid.insert _ _).hasEdge_iff, h.valid.hasEdge_insert, h.valid.hasEdge_iff]
  have hbooked : (r.extend site callee).solver.counters.indirectCallEdges =
      r.solver.counters.indirectCallEdges + 1 := callEdges_wiring (wiring_extend r site callee)
  refine ⟨?_, ?_, ?_, ?_, fun hf => (hcallees _ _).mpr (.inr (h.grows hf)),
    (sites_extend r site callee).trans h.sites, IdSet.ascending_insert h.ascending _, fun i => ?_,
    fun i hi => ?_⟩
  · rw [hcalls]
    exact h.valid.insert _ _
  · rw [hcalls, CallGraph.states_insert, h.states]
  · rw [hcalls, CallGraph.edgeCount_insert hnew, h.valid.length_pairs_insert hnew, h.counted]
  · rw [hbooked, hcalls, CallGraph.edgeCount_insert hnew, h.booked]
  · have hfresh : callee.id ∉ s.calls.calleesOf site.id := fun hf =>
      hnew (h.valid.hasEdge_iff.mpr (h.grows hf))
    change i ∈ r.connected.insert site.id ↔ _
    rw [IdSet.mem_insert, h.gained]
    constructor
    · rintro (rfl | ⟨f, hf, hold⟩)
      · exact ⟨callee.id, (hcallees _ _).mpr (.inl ⟨rfl, rfl⟩), hfresh⟩
      · exact ⟨f, (hcallees _ _).mpr (.inr hf), hold⟩
    · rintro ⟨f, hf, hold⟩
      rcases (hcallees i f).mp hf with ⟨rfl, -⟩ | hf
      · exact .inl rfl
      · exact .inr ⟨f, hf, hold⟩
  · rcases (IdSet.mem_insert ..).mp hi with rfl | hi
    · exact hsite
    · exact h.registered i hi

/-- What a round has done before it closes. -/
theorem extends_connectPairs (hr : s.Registered) (h : s.TracksCalls)
    {pairs : List (CallSite × FunctionDecl)} (hresolve : s.resolve targets = .ok pairs) :
    (connectPairs { solver := s } pairs).1.Extends s := by
  refine (connectPairs_keeps (r := { solver := s }) (I := Round.Extends s)
    (hr.sites_of_resolve hresolve) (fun {r site callee} hmem hext hnew => ?_) ?_).1
  · have hsite := hr.sites_of_resolve hresolve hmem
    exact hext.extend (Std.ExtTreeMap.mem_iff_isSome_getElem?.mpr (by rw [hsite]; rfl)) hnew
  · refine ⟨hr.calls, rfl, h.counted, h.booked, id, rfl, IdSet.ascending_empty, fun i => ?_, ?_⟩
    · refine iff_of_false (IdSet.not_mem_empty i) ?_
      rintro ⟨f, hf, hold⟩
      exact hold hf
    · exact fun i hi => absurd hi (IdSet.not_mem_empty i)

theorem calls_closeRound (r : Round) :
    (closeRound r).calls = (r.solver.calls.recordRound r.connected r.solver.siteIds).1 := by
  rw [closeRound_eq]

/-- A site that gained a callee has one. -/
theorem Gained.ne_empty (h : s.Gained t i) : t.calls.calleesOf i ≠ ∅ := by
  obtain ⟨f, hf, -⟩ := h
  intro hempty
  rw [hempty] at hf
  exact IdSet.not_mem_empty f hf

theorem Round.Extends.contains_iff (h : r.Extends s) :
    r.connected.contains i = true ↔ s.Gained r.solver i :=
  (IdSet.contains_iff_mem h.ascending).trans (h.gained i)

/-- **Closing a round moves the registered sites** to their next states. -/
theorem Round.Extends.state_closeRound (h : r.Extends s) (i : SiteId) :
    (i ∈ s.sites → (closeRound r).calls.state i = r.solver.calls.nextState r.connected i) ∧
      (i ∉ s.sites → (closeRound r).calls.state i = s.calls.state i) := by
  have hsites : i ∈ r.solver.siteIds ↔ i ∈ s.sites := by
    rw [siteIds, Std.ExtTreeMap.mem_keys, h.sites]
  rw [calls_closeRound, CallGraph.state_recordRound, CallGraph.state, h.states]
  exact ⟨fun hi => if_pos (hsites.mpr hi), fun hi => if_neg (mt hsites.mp hi)⟩

theorem calleesOf_closeRound (r : Round) (i : SiteId) :
    (closeRound r).calls.calleesOf i = r.solver.calls.calleesOf i := by
  rw [calls_closeRound, CallGraph.calleesOf_recordRound]

theorem Round.Extends.advances (h : r.Extends s) : s.Advances (closeRound r) := by
  have hgained : ∀ i, s.Gained (closeRound r) i ↔ s.Gained r.solver i := fun i => by
    rw [Gained, calleesOf_closeRound, Gained]
  refine ⟨fun {i} hi => ?_, fun {i} hi => ?_⟩
  · rw [(h.state_closeRound i).1 hi, CallGraph.nextState_eq_partiallyResolved, h.contains_iff,
      hgained]
  · rw [(h.state_closeRound i).1 hi, CallGraph.nextState_eq_stable, h.contains_iff, hgained,
      calleesOf_closeRound]

theorem Round.Extends.tracksCalls (h : r.Extends s) (hs : s.TracksCalls) :
    (closeRound r).TracksCalls := by
  have hsites : (closeRound r).sites = s.sites := by
    rw [closeRound_eq, enqueueAll_eq]
    exact h.sites
  have hcounters : (closeRound r).counters = r.solver.counters := by
    rw [closeRound_eq, enqueueAll_eq]
  have hother : ∀ i, i ∉ s.sites → r.solver.calls.calleesOf i = s.calls.calleesOf i := by
    intro i hi
    have hnone : s.calls.calleesOf i = ∅ := by_contra fun hne => hi (hs.registered i hne)
    rw [hnone]
    refine IdSet.eq_empty_of_isEmpty (IdSet.isEmpty_iff.mpr fun f hf => ?_)
    refine hi (h.registered i ((h.gained i).mpr ⟨f, hf, ?_⟩))
    rw [hnone]
    exact IdSet.not_mem_empty f
  refine ⟨?_, ?_, ?_, fun i => ?_, fun i hne => ?_⟩
  · rw [calls_closeRound, CallGraph.pairs_recordRound]
    exact h.valid.nodup_pairs
  · rw [calls_closeRound, CallGraph.pairs_recordRound, CallGraph.edgeCount_recordRound]
    exact h.counted
  · rw [hcounters, calls_closeRound, CallGraph.edgeCount_recordRound]
    exact h.booked
  · rw [calleesOf_closeRound]
    by_cases hi : i ∈ s.sites
    · rw [(h.state_closeRound i).1 hi]
      exact CallGraph.nextState_eq_unresolved fun hc => (h.contains_iff.mp hc).ne_empty
    · rw [(h.state_closeRound i).2 hi, hother i hi]
      exact hs.unresolved i
  · rw [calleesOf_closeRound] at hne
    rw [hsites]
    by_contra hi
    rw [hother i hi] at hne
    exact hi (hs.registered i hne)

/-- A round that is accepted closes what it has connected. -/
theorem exists_extends_of_connect (hr : s.Registered) (h : s.TracksCalls)
    (hok : (s.connect targets).2 = .ok new) :
    ∃ r : Round, r.Extends s ∧ (s.connect targets).1 = closeRound r := by
  rcases connect_cases hr targets with ⟨e, -, heq⟩ | ⟨pairs, hresolve, heq⟩
  · rw [heq] at hok
    cases hok
  · exact ⟨_, extends_connectPairs hr h hresolve, by rw [heq]⟩

/-- **Counts and states follow the callees of a round**, which is connected as a whole or not at
all. -/
theorem TracksCalls.connect (h : s.TracksCalls) (hr : s.Registered) (targets : CallEdges) :
    (s.connect targets).1.TracksCalls := by
  cases hok : (s.connect targets).2 with
  | error e =>
    rw [(connect_snd_eq_error hr hok).2]
    exact h
  | ok new =>
    obtain ⟨r, hext, heq⟩ := exists_extends_of_connect hr h hok
    rw [heq]
    exact hext.tracksCalls h

theorem TracksCalls.advances_connect (h : s.TracksCalls) (hr : s.Registered)
    (hok : (s.connect targets).2 = .ok new) : s.Advances (s.connect targets).1 := by
  obtain ⟨r, hext, heq⟩ := exists_extends_of_connect hr h hok
  rw [heq]
  exact hext.advances

/-! ## Operations -/

theorem TracksCalls.run {σ : Type} {a : Analysis σ} (h : a.solver.TracksCalls)
    (hs : a.solver.Coherent) : a.run.1.solver.TracksCalls := by
  refine Analysis.run_keeps (fun h => h.frame (Analysis.frame_start _)) (fun e hs h => ?_)
    (fun targets hs h => h.connect hs.registered targets) (fun rounds h => ?_) hs h
  · obtain ⟨seeded, hframe⟩ := Analysis.frame_solve_report hs e
    exact h.congr hframe.sites hframe.calls hframe.callEdges
  · exact h.congr rfl rfl rfl

/-- **No operation leaves counts and states behind the callees**, whether it fails or not. -/
theorem TracksCalls.apply (h : s.TracksCalls) (hs : s.Coherent) (op : Operation) :
    (op.apply s).TracksCalls := by
  cases op with
  | hand op => exact h.frame (op.frame s)
  | enqueueNodes => exact h.frame (.enqueueAll s s.graph.nodeIds)
  | seed => exact h.frame (frame_seedEdges s s.addressEdges)
  | solve =>
    obtain ⟨seeded, hframe⟩ := frame_solve hs
    exact h.congr hframe.sites hframe.calls hframe.callEdges
  | analyze source memory => exact TracksCalls.run (a := ⟨s, source, memory⟩) h hs
  | connect targets => exact h.connect hs.registered targets
  | connectCall added site callee =>
    exact TracksCalls.wiring (u := (s, added)) h (wiring_connectCall s added site callee)
  | connectFork added site callee =>
    exact TracksCalls.wiring (u := (s, added)) h
      (wiring_connectFork (A := fun _ => False) s added site callee)
  | allocate added site =>
    exact TracksCalls.wiring (u := (s, added)) h
      (wiring_allocate (F := fun _ _ => False) s added site)

end Solver

open Solver

variable {p : Problem} {s : Solver}

theorem Reachable.tracksCalls {scope : Scope} (hp : p.Made) (h : Reachable scope p s) :
    s.TracksCalls := by
  induction h with
  | start hs => exact tracksCalls_ofProblem hs
  | apply op hs _ ih => exact ih.apply (hs.coherent hp) op

/-- **A run without a bound leaves no site partially resolved**: its last round connects nothing. -/
theorem Analysis.state_run_ne {σ : Type} {a : Analysis σ} (hs : a.solver.Coherent)
    (h : a.solver.TracksCalls) (hlimit : a.solver.settings.maxCallGraphRounds = none)
    (hok : a.run.2 = .ok ()) (i : SiteId) :
    a.run.1.solver.calls.state i ≠ .partiallyResolved := by
  obtain ⟨u, t, v, rounds, hu, hround, hrun⟩ := Analysis.exists_last_round hs hlimit hok
  have ht := hu.steps (hround.steps (L := .analysis) (Licence.le_refl _) hu).1
  obtain ⟨memory, hconnect⟩ := hround.connect
  obtain ⟨hv, -⟩ := connect_eq_false ht.registered hconnect
  have hcalls : a.run.1.solver.calls = (t.calls.recordRound ∅ t.siteIds).1 := by
    rw [hrun, hv]
    rfl
  have hsites : a.run.1.solver.sites = t.sites := by
    rw [hrun, hv]
    rfl
  by_cases hi : i ∈ t.siteIds
  · rw [hcalls, CallGraph.state_recordRound, if_pos hi, Ne,
      CallGraph.nextState_eq_partiallyResolved, IdSet.contains_iff_mem IdSet.ascending_empty]
    exact IdSet.not_mem_empty i
  · have hend := h.run hs
    have hnone : a.run.1.solver.calls.calleesOf i = ∅ := by
      by_contra hne
      have hmem := hend.registered i hne
      rw [hsites] at hmem
      exact hi (Std.ExtTreeMap.mem_keys.mpr hmem)
    rw [(hend.unresolved i).mpr hnone]
    decide

/-- **States of sites follow the callees.** In every state that operations lead to, both counts are
the number of connected pairs, and a site is unresolved exactly if it has no callee. Whatever is
done from there, callees stay, and a resolved site is never unresolved again. A round that is
accepted makes a registered site partially resolved if the site gained a callee, and stable if it
has callees and gained none. An analysis that does not fail, with no bound on its rounds and any
source of call targets, leaves no site partially resolved. -/
theorem tracksCalls_of_reachable (hp : p.Made) (h : Reachable .any p s) :
    s.TracksCalls ∧
    (∀ ops i, (∀ f ∈ s.calls.calleesOf i, f ∈ (s.after ops).calls.calleesOf i) ∧
      (s.calls.state i ≠ .unresolved → (s.after ops).calls.state i ≠ .unresolved)) ∧
    (∀ {targets new}, (s.connect targets).2 = .ok new → s.Advances (s.connect targets).1) ∧
    ∀ {σ : Type} (a : Analysis σ), a.solver = s → s.settings.maxCallGraphRounds = none →
      a.run.2 = .ok () → ∀ i, a.run.1.solver.calls.state i ≠ .partiallyResolved := by
  have hs := h.coherent hp
  have htracks := h.tracksCalls hp
  refine ⟨htracks, fun ops i => ?_, htracks.advances_connect hs.registered, ?_⟩
  · have hend := hs.steps (hs.steps_after ops)
    have hgrows : ∀ f ∈ s.calls.calleesOf i, f ∈ (s.after ops).calls.calleesOf i := by
      intro f hf
      rw [← hend.registered.calls.hasEdge_iff]
      exact ((hs.steps_after ops).grows hs).calls (hs.registered.calls.hasEdge_iff.mpr hf)
    refine ⟨hgrows, mt fun hnone => ?_⟩
    rw [((h.after ops).tracksCalls hp).unresolved] at hnone
    rw [hnone] at hgrows
    refine (htracks.unresolved i).mpr (IdSet.eq_empty_of_isEmpty (IdSet.isEmpty_iff.mpr ?_))
    exact fun f hf => IdSet.not_mem_empty f (hgrows f hf)
  · rintro σ a rfl hlimit hok
    exact Analysis.state_run_ne hs htracks hlimit hok

/-- In the sample a round connects the function to the first site and leaves the other one
unresolved; the analysis that follows resolves both for good. -/
theorem tracksCalls_sampleHistory :
    (sampleHistory.connect (.ofList [(0, [3])])).1.calls.state 0 = .partiallyResolved ∧
      (sampleHistory.connect (.ofList [(0, [3])])).1.calls.state 1 = .unresolved ∧
      sampleAnalysis.run.1.solver.calls.pairs = [(0, 3), (1, 3)] ∧
      sampleAnalysis.run.1.solver.counters.indirectCallEdges = 2 ∧
      (∀ i, sampleAnalysis.run.1.solver.calls.state i ≠ .partiallyResolved) ∧
      sampleHistory.Advances (sampleHistory.connect (.ofList [(0, [3])])).1 := by
  obtain ⟨-, -, hround, hrun⟩ := tracksCalls_of_reachable sampleProblem_made reachable_sampleHistory
  have haccepted : (sampleHistory.connect (.ofList [(0, [3])])).2 = .ok true := by decide +kernel
  have hok : sampleAnalysis.run.2 = .ok () := by decide +kernel
  exact ⟨by decide +kernel, by decide +kernel, by decide +kernel, by decide +kernel,
    hrun sampleAnalysis rfl rfl hok, hround haccepted⟩

end PointsTo
