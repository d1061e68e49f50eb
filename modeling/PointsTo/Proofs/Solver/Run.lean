import PointsTo.Proofs.Solver.Fixpoint

/-!
# Runs of the analysis

A run is a sequence of steps, whatever the source of call targets answers. There are enough rounds:
each one that goes on connects a callee, and there are only so many. So a run that does not fail
ends in one of two ways: with a round that connects nothing new, or, after the last round allowed,
with one more drain.

## Main definitions

* `Analysis.CallRound`: one round: solving, asking the source, connecting its answer

## Main results

* `steps_connect`, `steps_run`: connecting and running are sequences of steps
* `runRounds_ends`: how the rounds of an analysis end
* `exists_last_round`: without a bound a run ends with a round that connects nothing new
* `attained_run`: what treating classes brings about, a run that does not fail brings about
* `solved_run`: a run that does not fail solves the state
-/

namespace PointsTo

namespace Solver

variable {s t : Solver} {L : Licence} {r : Round} {targets : CallEdges} {site : CallSite}
  {callee : FunctionDecl} {nodes : List NodeId} {F : NodeId → NodeId → Prop} {A : SiteId → Prop}
  {P : Solver → NodeId → Prop} {n : NodeId}

/-! ## Connecting -/

theorem steps_enqueueAll (h : ∀ n ∈ nodes, s.graph.hasNode n = true) :
    Steps L s (s.enqueueAll nodes) := by
  induction nodes generalizing s with
  | nil => exact .refl
  | cons n nodes ih =>
    exact .head (.wait (h n List.mem_cons_self))
      (ih fun m hm => h m (List.mem_cons_of_mem n hm))

/-- Every copy on the list is an edge of the graph. -/
def Listed (s : Solver) (added : CopySet) : Prop :=
  ∀ n d, (n, d) ∈ added → s.graph.hasEdge .copy n d = true

theorem Listed.wiring {u v : Solver × CopySet} (h : u.1.Listed u.2) (hw : Wiring F A u v) :
    v.1.Listed v.2 := by
  have hcopy : ∀ {s : Solver} {added : CopySet} (a b : NodeId), s.Listed added →
      (s.connectCopy added a b).1.Listed (s.connectCopy added a b).2 := by
    intro s added a b hlisted
    rcases s.connectCopy_cases added a b with ⟨heq, -⟩ | ⟨-, -, heq⟩
    · rw [heq]
      exact hlisted
    · rw [heq]
      intro n d hmem
      rw [Std.ExtTreeSet.mem_insert, Std.LawfulEqCmp.compare_eq_iff_eq] at hmem
      rw [hasEdge_withCopy]
      rcases hmem with heq | hmem
      · obtain ⟨rfl, rfl⟩ := Prod.mk.inj heq
        exact .inl ⟨rfl, rfl, rfl⟩
      · exact .inr (hlisted n d hmem)
  refine hw.keeps (I := fun v => v.1.Listed v.2) (fun hw ht => ?_) h
  cases hw with
  | report e => exact ht
  | copy hab => exact hcopy _ _ ht
  | memory hi hs hr hm => exact hcopy _ _ ht
  | allocate hi hs hm => exact fun n d hmem => (hasEdge_createAllocation ..).trans (ht n d hmem)

/-- A callee that has just joined the call graph is connected. -/
theorem connected_addCallee (hc : s.calls.Valid) (hsite : s.sites[site.id]? = some site)
    (hcallee : s.functions.get? callee.id = some callee) :
    (s.addCallee site callee).Connected site callee :=
  ⟨hsite, hcallee, hc.hasEdge_insert.mpr (.inl ⟨rfl, rfl⟩)⟩

theorem steps_extend (hL : .analysis ≤ L) (hs : r.solver.Coherent)
    (hsite : r.solver.sites[site.id]? = some site)
    (hcallee : r.solver.functions.get? callee.id = some callee)
    (hnew : ¬ r.solver.calls.hasEdge site.id callee.id = true) :
    Steps L r.solver (r.extend site callee).solver := by
  have hconnected := connected_addCallee hs.registered.calls hsite hcallee
  have hwiring := wiring_extend r site callee
  refine .head (.callee hsite hcallee hnew) (.single (.wiring hwiring ?_ ?_))
  · exact fun a b hab => hL.copy ⟨site, callee, hconnected, hab⟩
  · exact fun i hi => hL.allocate ⟨site, callee, hconnected, hi⟩

/-- The sources of the copies listed are ends of edges, hence nodes of the graph, and may wait. -/
theorem steps_closeRound (hs : r.solver.Coherent) (hlisted : r.solver.Listed r.added) :
    Steps L r.solver (closeRound r) := by
  have hsources : ∀ n ∈ r.sources, r.solver.graph.hasNode n = true := by
    intro n hn
    obtain ⟨⟨m, d⟩, hmem, rfl⟩ := List.mem_map.mp hn
    exact (hs.valid.graph.ends (hlisted m d (Std.ExtTreeSet.mem_toList.mp hmem))).1
  have hcalls : (r.solver.enqueueAll r.sources).calls = r.solver.calls := by rw [enqueueAll_eq]
  have hids : (r.solver.enqueueAll r.sources).siteIds = r.solver.siteIds := by
    rw [enqueueAll_eq]
    rfl
  have hrecord : Step L (r.solver.enqueueAll r.sources)
      { r.solver.enqueueAll r.sources with
        calls := (r.solver.calls.recordRound r.connected r.solver.siteIds).1 } := by
    have h := Step.record (L := L) (s := r.solver.enqueueAll r.sources) r.connected
    rwa [hcalls, hids] at h
  rw [closeRound_eq]
  exact .tail (.tail (steps_enqueueAll hsources) hrecord) (.note rfl rfl)

/-- **A round is a sequence of steps.** Names that were resolved when it began stand for the same
sites and functions all along. -/
theorem steps_connect (hL : .analysis ≤ L) (hs : s.Coherent) (targets : CallEdges) :
    Steps L s (s.connect targets).1 := by
  rcases connect_cases hs.registered targets with ⟨e, -, heq⟩ | ⟨pairs, hresolve, heq⟩
  · rw [heq]
  · have hpairs := connectPairs_keeps (r := { solver := s })
      (I := fun r => Steps L s r.solver ∧ r.solver.Listed r.added)
      (hs.registered.sites_of_resolve hresolve) ?_ ⟨.refl, fun n d h => by simp at h⟩
    · rw [heq]
      obtain ⟨⟨hsteps, hlisted⟩, -⟩ := hpairs
      exact hsteps.trans (steps_closeRound (hs.steps hsteps) hlisted)
    · rintro r site callee hmem ⟨hsteps, hlisted⟩ hnew
      obtain ⟨hsite, hcallee, -⟩ := (mem_pairs_of_resolve hs.registered hresolve).mp hmem
      have hr := hs.steps hsteps
      have hgrows := hsteps.grows hs
      refine ⟨hsteps.trans (steps_extend hL hr ?_ ?_ hnew), ?_⟩
      · rwa [hgrows.sites]
      · rwa [hgrows.functions]
      · exact Listed.wiring (u := (r.solver.addCallee site callee, r.added)) hlisted
          (wiring_extend r site callee)

/-- What a node waits for or has, it waits for or has after a round. -/
theorem Attained.connect (hP : Attained P) (hs : s.Coherent) (targets : CallEdges)
    (hn : s.Waiting n ∨ P s n) :
    (s.connect targets).1.Waiting n ∨ P (s.connect targets).1 n := by
  have ht := hs.steps (steps_connect (Licence.le_refl .analysis) hs targets)
  exact hP.noticed hs.valid ht.valid (.connect hs.valid hs.registered targets n) hn

/-- A round that connects nothing new leaves classes, sets and graph alone. -/
theorem Solved.connect_false (h : s.Solved) (hr : s.Registered) {targets : CallEdges}
    (hconnect : s.connect targets = (t, .ok false)) : t.Solved := by
  obtain ⟨heq, -⟩ := connect_eq_false hr hconnect
  rw [heq]
  exact ⟨fun n => (h.settled n).mono rfl id rfl fun _ => Iff.rfl, h.seeded⟩

end Solver

/-! ## Rounds -/

namespace Analysis

open Solver

variable {σ : Type} {L : Licence} {s t u : Solver} {a b : Analysis σ} {source : TargetSource σ}

/-- **One round**: the classes are solved, the source is asked, and its answer is connected. -/
structure CallRound (source : TargetSource σ) (s t u : Solver) (new : Bool) : Prop where
  solve : ∃ rounds, (s.report (.roundStarted rounds)).solve = (t, .ok ())
  connect : ∃ memory, t.connect (source.next t memory).1 = (u, .ok new)

theorem steps_solve_report (hs : s.Coherent) (e : Event) : Steps L s (s.report e).solve.1 :=
  .head (.note rfl rfl) (steps_solve (hs.report e))

theorem frame_solve_report (hs : s.Coherent) (e : Event) :
    ∃ seeded, { s with seeded }.Frame (s.report e).solve.1 := by
  obtain ⟨seeded, hf⟩ := frame_solve (hs.report e)
  exact ⟨seeded, hf.settings, hf.graph, hf.outsideAddresses, hf.functions, hf.sites, hf.calls,
    hf.allocations, hf.rounds, hf.callEdges, hf.dummies, hf.seeded⟩

theorem CallRound.frame {new : Bool} (h : CallRound source s t u new) (hs : s.Coherent) :
    ∃ seeded, { s with seeded }.Frame t := by
  obtain ⟨rounds, hsolve⟩ := h.solve
  have hframe := frame_solve_report hs (.roundStarted rounds)
  rwa [hsolve] at hframe

theorem CallRound.steps {new : Bool} (h : CallRound source s t u new) (hL : .analysis ≤ L)
    (hs : s.Coherent) : Steps L s t ∧ Steps L t u := by
  obtain ⟨rounds, hsolve⟩ := h.solve
  obtain ⟨memory, hconnect⟩ := h.connect
  have hst : Steps L s t := by
    have h := steps_solve_report (L := L) hs (.roundStarted rounds)
    rwa [hsolve] at h
  refine ⟨hst, ?_⟩
  have h := steps_connect hL (hs.steps hst) (source.next t memory).1
  rwa [hconnect] at h

/-- A round with a new callee leaves fewer of them to connect. -/
theorem CallRound.unconnected_lt (h : CallRound source s t u true) (hs : s.Coherent) :
    u.unconnected < s.unconnected := by
  have hst := (h.steps (L := .analysis) (Licence.le_refl _) hs).1
  have hgrows := hst.grows hs
  obtain ⟨memory, hconnect⟩ := h.connect
  calc u.unconnected
      < t.unconnected := unconnected_lt_of_connect (hs.steps hst).registered hconnect
    _ ≤ s.unconnected := Finset.card_le_card
        (unconnectedPairs_subset hgrows.sites hgrows.functions fun _ _ => hgrows.calls)

/-- **What one round of an analysis does**: it fails while solving or connecting, it is the last one
because it connects nothing new or because no other is allowed, or the analysis goes on. -/
theorem runRounds_succ (a : Analysis σ) (fuel rounds : Nat) :
    (∃ t e, (a.solver.report (.roundStarted rounds)).solve = (t, .error e) ∧
      a.runRounds (fuel + 1) rounds = ({ a with solver := t }, .error e)) ∨
    ∃ t memory, (a.solver.report (.roundStarted rounds)).solve = (t, .ok ()) ∧
      ((∃ u e, t.connect (a.source.next t a.memory).1 = (u, .error e) ∧
        a.runRounds (fuel + 1) rounds = ({ a with solver := u, memory }, .error e)) ∨
      (∃ u, t.connect (a.source.next t a.memory).1 = (u, .ok false) ∧
        a.runRounds (fuel + 1) rounds = ({ a with solver := u, memory }, .ok rounds)) ∨
      ∃ u, t.connect (a.source.next t a.memory).1 = (u, .ok true) ∧
        ((∃ limit, u.settings.maxCallGraphRounds = some limit ∧
          a.runRounds (fuel + 1) rounds =
            { a with solver := u, memory }.stopAtLimit limit (rounds + 1)) ∨
        a.runRounds (fuel + 1) rounds =
          { a with solver := u, memory }.runRounds fuel (rounds + 1))) := by
  rw [runRounds]
  cases (a.solver.report (.roundStarted rounds)).solve with
  | mk t outcome =>
    cases outcome with
    | error e => exact .inl ⟨t, e, rfl, rfl⟩
    | ok _ =>
      refine .inr ⟨t, (a.source.next t a.memory).2, rfl, ?_⟩
      dsimp only [targets]
      cases t.connect (a.source.next t a.memory).1 with
      | mk u outcome =>
        cases outcome with
        | error e => exact .inl ⟨u, e, rfl, rfl⟩
        | ok new =>
          cases new with
          | false => exact .inr (.inl ⟨u, rfl, rfl⟩)
          | true =>
            refine .inr (.inr ⟨u, rfl, ?_⟩)
            dsimp only
            split
            · exact .inr rfl
            · rename_i limit hlimit
              split
              · exact .inl ⟨limit, hlimit, rfl⟩
              · exact .inr rfl

/-- A round that does not fail, with what follows it. -/
theorem runRounds_of_round {rounds : Nat} {new : Bool}
    (hsolve : (a.solver.report (.roundStarted rounds)).solve = (t, .ok ()))
    (hconnect : t.connect (a.source.next t a.memory).1 = (u, .ok new)) (fuel : Nat) :
    a.runRounds (fuel + 1) rounds =
      if new then
        match u.settings.maxCallGraphRounds.filter (· ≤ rounds + 1) with
        | none => { a with solver := u, memory := (a.source.next t a.memory).2 }.runRounds fuel
            (rounds + 1)
        | some limit => { a with solver := u, memory := (a.source.next t a.memory).2 }.stopAtLimit
            limit (rounds + 1)
      else ({ a with solver := u, memory := (a.source.next t a.memory).2 }, .ok rounds) := by
  rw [runRounds, hsolve]
  dsimp only [targets]
  rw [hconnect]
  cases new with
  | false => rfl
  | true =>
    rw [if_pos rfl]
    dsimp only
    cases u.settings.maxCallGraphRounds with
    | none => rfl
    | some limit =>
      dsimp only
      by_cases hlimit : limit ≤ rounds + 1
      · rw [if_pos hlimit, Option.filter_some_pos (by simpa using hlimit)]
      · rw [if_neg hlimit, Option.filter_some_neg (by simpa using hlimit)]

theorem stopAtLimit_of_solve {limit rounds : Nat}
    (hsolve : (a.solver.report (.roundLimitReached limit)).solve = (t, .ok ())) :
    a.stopAtLimit limit rounds = ({ a with solver := t }, .ok rounds) := by
  unfold stopAtLimit
  rw [hsolve]
  rfl

/-- **What solving and connecting keep, rounds keep**, whatever their number and their outcome. -/
theorem runRounds_keeps {I : Solver → Prop}
    (hsolve : ∀ {s} e, s.Coherent → I s → I (s.report e).solve.1)
    (hconnect : ∀ {s} targets, s.Coherent → I s → I (s.connect targets).1)
    (hs : a.solver.Coherent) (ha : I a.solver) (fuel rounds : Nat) :
    I (a.runRounds fuel rounds).1.solver := by
  induction fuel generalizing a rounds with
  | zero => exact ha
  | succ fuel ih =>
    have ht := hsolve (.roundStarted rounds) hs ha
    have hst := hs.steps (steps_solve_report (L := .analysis) hs (.roundStarted rounds))
    rcases a.runRounds_succ fuel rounds with ⟨t, e, hres, heq⟩ | ⟨t, memory, hres, hround⟩
    · rw [hres] at ht
      rwa [heq]
    · rw [hres] at ht hst
      have hu := hconnect (a.source.next t a.memory).1 hst ht
      have htu := hst.steps
        (steps_connect (Licence.le_refl .analysis) hst (a.source.next t a.memory).1)
      rcases hround with ⟨u, e, hres', heq⟩ | ⟨u, hres', heq⟩ | ⟨u, hres', hlast | heq⟩
      all_goals rw [hres'] at hu htu
      · rwa [heq]
      · rwa [heq]
      · obtain ⟨limit, -, heq⟩ := hlast
        rw [heq]
        exact hsolve _ htu hu
      · rw [heq]
        exact ih (a := { a with solver := u, memory }) htu hu _

/-- **How rounds end.** Let a property of states hold at the start and be kept by every round with a
new callee. When the rounds do not fail, it holds before the last of them, which connects nothing
new, or before the last drain, after as many rounds as the settings allow. -/
theorem runRounds_ends {I : Solver → Prop} {fuel rounds n : Nat}
    (hI : ∀ {s t u}, I s → s.Coherent → CallRound a.source s t u true → I u)
    (hs : a.solver.Coherent) (ha : I a.solver) (hfuel : a.solver.unconnected < fuel)
    (hok : a.runRounds fuel rounds = (b, .ok n)) :
    (∃ s t, I s ∧ s.Coherent ∧ CallRound a.source s t b.solver false) ∨
    ∃ s limit, I s ∧ s.Coherent ∧ s.settings.maxCallGraphRounds = some limit ∧
      (s.report (.roundLimitReached limit)).solve = (b.solver, .ok ()) := by
  -- On the fuel, which stays above the number of callees left: it never runs out.
  induction fuel generalizing a rounds with
  | zero => cases hfuel
  | succ fuel ih =>
    rcases a.runRounds_succ fuel rounds with ⟨t, e, -, heq⟩ | ⟨t, memory, hres, hround⟩
    · rw [hok] at heq
      cases heq
    · rcases hround with ⟨u, e, -, heq⟩ | ⟨u, hres', heq⟩ | ⟨u, hres', hnext⟩
      · rw [hok] at heq
        cases heq
      · rw [hok] at heq
        obtain ⟨rfl, -⟩ := Prod.mk.inj heq
        exact .inl ⟨a.solver, t, ha, hs, ⟨rounds, hres⟩, ⟨a.memory, hres'⟩⟩
      · have hround : CallRound a.source a.solver t u true := ⟨⟨rounds, hres⟩, ⟨a.memory, hres'⟩⟩
        have hsteps := hround.steps (L := .analysis) (Licence.le_refl _) hs
        have hu := hs.steps (hsteps.1.trans hsteps.2)
        rcases hnext with ⟨limit, hlimit, heq⟩ | heq
        · unfold stopAtLimit at heq
          cases hlast : (u.report (.roundLimitReached limit)).solve with
          | mk v outcome =>
            rw [hok] at heq
            dsimp only at heq
            rw [hlast] at heq
            cases outcome with
            | error e => cases heq
            | ok _ =>
              obtain ⟨rfl, -⟩ := Prod.mk.inj heq
              exact .inr ⟨u, limit, hI ha hs hround, hu, hlimit, hlast⟩
        · refine ih (a := { a with solver := u, memory }) hI hu (hI ha hs hround) ?_ (heq ▸ hok)
          exact Nat.lt_of_lt_of_le (hround.unconnected_lt hs) (Nat.le_of_lt_succ hfuel)

/-! ## Whole runs -/

theorem start_eq (s : Solver) :
    start s =
      (s.report (.analysisStarted s.graph.nodeCount s.sites.size s.functions.size)).enqueueAll
        s.graph.nodeIds :=
  rfl

theorem steps_start (s : Solver) : Steps L s (start s) := by
  rw [start_eq]
  refine .head (.note rfl rfl) (steps_enqueueAll fun n hn => ?_)
  exact ConstraintGraph.mem_nodeIds.mp hn

theorem frame_start (s : Solver) : s.Frame (start s) := by
  have hf := Frame.enqueueAll
    (s.report (.analysisStarted s.graph.nodeCount s.sites.size s.functions.size)) s.graph.nodeIds
  exact ⟨hf.settings, hf.graph, hf.outsideAddresses, hf.functions, hf.sites, hf.calls,
    hf.allocations, hf.rounds, hf.callEdges, hf.dummies, hf.seeded⟩

/-- At the start every class of the graph waits. -/
theorem poised_start (hs : s.Coherent) : (start s).Poised := by
  intro n
  have hreport := hs.report (.analysisStarted s.graph.nodeCount s.sites.size s.functions.size)
  by_cases hn : s.graph.hasNode n = true
  · left
    exact waiting_enqueueAll hreport.valid (ConstraintGraph.mem_nodeIds.mpr hn)
  · have hnone : ∀ {k x y}, s.graph.hasEdge k x y = true → x ≠ n ∧ y ≠ n := by
      intro k x y h
      refine ⟨?_, ?_⟩ <;> rintro rfl
      · exact hn (hs.valid.graph.ends h).1
      · exact hn (hs.valid.graph.ends h).2
    right
    rw [start_eq, enqueueAll_eq]
    refine ⟨fun {d} hd => ?_, fun {d} hd => ?_⟩
    · rcases hd with hd | hd
      · exact absurd rfl (hnone hd).1
      · exact absurd rfl (hnone hd).1
    · rcases hd with hd | hd
      · exact absurd rfl (hnone hd).1
      · exact absurd rfl (hnone hd).2

theorem step_finish (s : Solver) (rounds : Nat) : Step L s (finish s rounds) := .note rfl rfl

/-- **What solving and connecting keep, a run keeps**, whatever its source and its outcome. -/
theorem run_keeps {I : Solver → Prop} (hstart : ∀ {s}, I s → I (start s))
    (hsolve : ∀ {s} e, s.Coherent → I s → I (s.report e).solve.1)
    (hconnect : ∀ {s} targets, s.Coherent → I s → I (s.connect targets).1)
    (hfinish : ∀ {s} rounds, I s → I (finish s rounds))
    (hs : a.solver.Coherent) (ha : I a.solver) : I a.run.1.solver := by
  have hrounds := runRounds_keeps (a := { a with solver := start a.solver }) hsolve hconnect
    (hs.steps (steps_start (L := .analysis) a.solver)) (hstart ha)
    ((start a.solver).pairBound + 1) 0
  unfold run
  dsimp only
  split
  · rename_i heq
    rwa [heq] at hrounds
  · rename_i heq
    rw [heq] at hrounds
    exact hfinish _ hrounds

/-- **A run is a sequence of steps.** -/
theorem steps_run (hL : .analysis ≤ L) (hs : a.solver.Coherent) :
    Steps L a.solver a.run.1.solver :=
  run_keeps (I := Steps L a.solver) (fun h => h.trans (steps_start _))
    (fun e hs h => h.trans (steps_solve_report hs e))
    (fun targets hs h => h.trans (steps_connect hL hs targets))
    (fun rounds h => h.tail (step_finish _ rounds)) hs .refl

/-- What a run that does not fail is made of. -/
theorem run_eq_ok (hok : a.run.2 = .ok ()) :
    ∃ b rounds, { a with solver := start a.solver }.runRounds ((start a.solver).pairBound + 1) 0 =
      (b, .ok rounds) ∧ a.run.1.solver = finish b.solver rounds := by
  unfold run at hok ⊢
  dsimp only at hok ⊢
  cases hres : { a with solver := start a.solver }.runRounds
      ((start a.solver).pairBound + 1) 0 with
  | mk b outcome =>
    rw [hres] at hok
    cases outcome with
    | error e => cases hok
    | ok rounds => exact ⟨b, rounds, rfl, rfl⟩

/-- **What rounds keep, a run that does not fail keeps**, if steps that connect nothing keep it. -/
theorem run_ends {I : Solver → Prop}
    (hquiet : ∀ {s t}, I s → s.Coherent → Steps .analysis s t → t.calls = s.calls → I t)
    (hround : ∀ {s t u new}, I s → s.Coherent → CallRound a.source s t u new → I u)
    (hs : a.solver.Coherent) (ha : I a.solver) (hok : a.run.2 = .ok ()) : I a.run.1.solver := by
  obtain ⟨b, rounds, hrounds, hrun⟩ := run_eq_ok hok
  have hsteps := steps_start (L := .analysis) a.solver
  have hstart : I (start a.solver) := hquiet ha hs hsteps (frame_start a.solver).calls
  have hb : I b.solver ∧ b.solver.Coherent := by
    rcases runRounds_ends (a := { a with solver := start a.solver }) (I := I) hround
      (hs.steps hsteps) hstart (Nat.lt_succ_of_le (unconnected_le _)) hrounds with hlast | hlast
    · obtain ⟨s, t, hI, hcoherent, hlast⟩ := hlast
      have hlaststeps := hlast.steps (L := .analysis) (Licence.le_refl _) hcoherent
      exact ⟨hround hI hcoherent hlast, hcoherent.steps (hlaststeps.1.trans hlaststeps.2)⟩
    · obtain ⟨s, limit, hI, hcoherent, -, hsolve⟩ := hlast
      have hlaststeps := steps_solve_report (L := .analysis) hcoherent (.roundLimitReached limit)
      obtain ⟨seeded, hframe⟩ := frame_solve_report hcoherent (.roundLimitReached limit)
      rw [hsolve] at hlaststeps hframe
      exact ⟨hquiet hI hcoherent hlaststeps hframe.calls, hcoherent.steps hlaststeps⟩
  rw [hrun]
  exact hquiet hb.1 hb.2 (.single (step_finish _ _)) rfl

/-- **A run that does not fail ends with solving**, after which it only records: a property that
rounds with a new callee keep holds before that. The last round connects nothing new, so it only
moves the sites to their next states. -/
theorem exists_solve_run {I : Solver → Prop}
    (hI : ∀ {s t u}, I s → s.Coherent → CallRound a.source s t u true → I u)
    (hs : a.solver.Coherent) (hstart : I (start a.solver)) (hok : a.run.2 = .ok ()) :
    ∃ s e t, I s ∧ s.Coherent ∧ (s.report e).solve = (t, .ok ()) ∧
      ∃ calls counters journal, a.run.1.solver = { t with calls, counters, journal } := by
  obtain ⟨b, rounds, hrounds, hrun⟩ := run_eq_ok hok
  have hcoherent := hs.steps (steps_start (L := .analysis) a.solver)
  rcases runRounds_ends (a := { a with solver := start a.solver }) (I := I) hI hcoherent hstart
    (Nat.lt_succ_of_le (unconnected_le _)) hrounds with hlast | hlast
  · obtain ⟨s, t, hIs, hs, hround⟩ := hlast
    obtain ⟨rounds', hsolve⟩ := hround.solve
    obtain ⟨memory, hconnect⟩ := hround.connect
    have ht := hs.steps (hround.steps (L := .analysis) (Licence.le_refl _) hs).1
    obtain ⟨heq, -⟩ := connect_eq_false ht.registered hconnect
    refine ⟨s, _, t, hIs, hs, hsolve, (finish b.solver rounds).calls,
      (finish b.solver rounds).counters, (finish b.solver rounds).journal, ?_⟩
    rw [hrun, heq]
    rfl
  · obtain ⟨s, limit, hIs, hs, -, hsolve⟩ := hlast
    exact ⟨s, _, b.solver, hIs, hs, hsolve, _, _, _, hrun⟩

/-- **A run without a bound ends with a round that connects nothing new.** -/
theorem exists_last_round (hs : a.solver.Coherent)
    (hlimit : a.solver.settings.maxCallGraphRounds = none) (hok : a.run.2 = .ok ()) :
    ∃ s t u rounds, s.Coherent ∧ CallRound a.source s t u false ∧
      a.run.1.solver = finish u rounds := by
  obtain ⟨b, rounds, hrounds, hrun⟩ := run_eq_ok hok
  have hstart := hs.steps (steps_start (L := .analysis) a.solver)
  have hkept : ∀ {s t u}, s.settings = a.solver.settings → s.Coherent →
      CallRound a.source s t u true → u.settings = a.solver.settings := by
    intro s t u hsettings hs hround
    have hsteps := hround.steps (L := .analysis) (Licence.le_refl _) hs
    exact (Steps.grows hs (hsteps.1.trans hsteps.2)).settings.trans hsettings
  rcases runRounds_ends (a := { a with solver := start a.solver })
    (I := fun s => s.settings = a.solver.settings) hkept hstart (frame_start _).settings
    (Nat.lt_succ_of_le (unconnected_le _)) hrounds with hlast | hlast
  · obtain ⟨s, t, -, hs, hround⟩ := hlast
    exact ⟨s, t, b.solver, rounds, hs, hround, hrun⟩
  · obtain ⟨s, limit, hsettings, -, hsome, -⟩ := hlast
    rw [hsettings, hlimit] at hsome
    cases hsome

/-- **What treating a class brings about, a run that does not fail brings about**, whatever source
it asks. -/
theorem attained_run {P : Solver → NodeId → Prop} {n : NodeId} (hP : Attained P)
    (hs : a.solver.Coherent) (hok : a.run.2 = .ok ())
    (hn : (start a.solver).Waiting n ∨ P (start a.solver) n) : P a.run.1.solver n := by
  have hreport : ∀ {s : Solver} (e : Event), s.Coherent → s.Waiting n ∨ P s n →
      (s.report e).Waiting n ∨ P (s.report e) n := fun {s} e hs hn =>
    hP.noticed hs.valid (hs.report e).valid (.aside s n fun _ => id) hn
  have hround : ∀ {s t u}, s.Waiting n ∨ P s n → s.Coherent → CallRound a.source s t u true →
      u.Waiting n ∨ P u n := by
    intro s t u hn hs hround
    obtain ⟨rounds, hsolve⟩ := hround.solve
    obtain ⟨memory, hconnect⟩ := hround.connect
    have hsteps := hround.steps (L := .analysis) (Licence.le_refl _) hs
    have ht := hP.solve (hs.report (.roundStarted rounds)) (by rw [hsolve]) (hreport _ hs hn)
    rw [hsolve] at ht
    have hu := hP.connect (hs.steps hsteps.1) (a.source.next t memory).1 (.inr ht)
    rwa [hconnect] at hu
  obtain ⟨s, e, t, hI, hs, hsolve, calls, counters, journal, hrun⟩ :=
    exists_solve_run (I := fun s => s.Waiting n ∨ P s n) hround hs hn hok
  have hsteps := steps_solve_report (L := .analysis) hs e
  have ht := hP.solve (hs.report e) (by rw [hsolve]) (hreport e hs hI)
  rw [hsolve] at hsteps ht
  have hv := (hs.steps hsteps).valid
  rw [hrun]
  exact hP.lasts hv (hv.congr rfl rfl rfl rfl rfl) (.aside t n) ht

/-- **A run that does not fail solves the state**, whatever source it asks. -/
theorem solved_run (hs : a.solver.Coherent) (hok : a.run.2 = .ok ()) : a.run.1.solver.Solved := by
  refine ⟨fun n => attained_run attained_settled hs hok (poised_start hs n), ?_⟩
  obtain ⟨s, e, t, -, hs, hsolve, calls, counters, journal, hrun⟩ :=
    exists_solve_run (I := fun _ => True) (fun _ _ _ => trivial) hs trivial hok
  have hseeded := seeded_solve (hs.report e) (by rw [hsolve])
  rw [hsolve] at hseeded
  rw [hrun]
  exact hseeded

end Analysis

end PointsTo
