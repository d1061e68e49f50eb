import PointsTo.Proofs.Solver.Step

/-!
# Draining to a fixpoint

A drain has enough steps: each one takes a class from those that wait, and a class joins them only
when there is one class less. So when a drain does not fail, no class waits afterwards. What
treating a class brings about, and what lasts while the class is left alone, then holds of every
node of which it held before or whose class waited; the case in point is that the node is settled.

## Main definitions

* `Solver.Attained`: a property of nodes that treating their class brings about
* `Solver.Solved`: every node is settled, and every address edge holds

## Main results

* `steps_drain`, `steps_solve`: both are sequences of steps
* `Attained.drain`, `Attained.solve`: what a drain that does not fail brings about
* `solved_solve`: solving a poised state solves it
-/

namespace PointsTo.Solver

variable {s t : Solver} {L : Licence} {P : Solver → NodeId → Prop}
  {edges : List (NodeId × NodeId)} {n o p rep : NodeId}

/-! ## Address edges -/

theorem steps_seedEdges (h : ∀ e ∈ edges, e ∈ s.addressEdges) :
    Steps L s (s.seedEdges edges).1 := by
  induction edges generalizing s with
  | nil => exact .refl
  | cons e edges ih =>
    obtain ⟨o, p⟩ := e
    unfold seedEdges
    cases hmissing : s.graph.missing? [o, p] with
    | some n => exact .refl
    | none =>
      have hnodes := ConstraintGraph.missing?_eq_none.mp hmissing
      have hstep : Step L s (s.seedEdge o p) :=
        .address (h (o, p) List.mem_cons_self) (hnodes o (by simp)) (hnodes p (by simp))
      exact .head hstep (ih fun e he => h e (List.mem_cons_of_mem _ he))

theorem frame_seedEdges (s : Solver) (edges : List (NodeId × NodeId)) :
    s.Frame (s.seedEdges edges).1 := by
  induction edges generalizing s with
  | nil => exact .refl s
  | cons e edges ih =>
    obtain ⟨o, p⟩ := e
    unfold seedEdges
    cases s.graph.missing? [o, p] with
    | some n => exact .refl s
    | none =>
      have hedge : s.Frame (s.seedEdge o p) :=
        ⟨rfl, rfl, rfl, rfl, rfl, rfl, rfl, rfl, rfl, rfl, rfl⟩
      exact hedge.trans (ih _)

/-- An address edge puts its object into the set of its pointer. -/
theorem mem_pointsTo_seedEdge {o p n x : NodeId} :
    x ∈ (s.seedEdge o p).pointsTo n ↔ (s.Same n p ∧ x = o) ∨ x ∈ s.pointsTo n := by
  change x ∈ (s.store.insert (s.representative p) o).1.get (s.representative n) ↔ _
  rw [Store.get_insert, mem_pointsTo, Same]
  split
  · rename_i hnp
    simp [IdSet.mem_insert, hnp]
  · rename_i hnp
    simp [hnp]

/-- The object of an edge is there after its own edge, and the other edges only add. -/
theorem mem_pointsTo_seedEdges (hs : s.Coherent) (h : ∀ e ∈ edges, e ∈ s.addressEdges)
    (hok : (s.seedEdges edges).2 = .ok ()) {e : NodeId × NodeId} (he : e ∈ edges) :
    e.1 ∈ (s.seedEdges edges).1.pointsTo e.2 := by
  induction edges generalizing s with
  | nil => cases he
  | cons first edges ih =>
    obtain ⟨o, p⟩ := first
    unfold seedEdges at hok ⊢
    cases hmissing : s.graph.missing? [o, p] with
    | some n =>
      rw [hmissing] at hok
      cases hok
    | none =>
      rw [hmissing] at hok
      have hnodes := ConstraintGraph.missing?_eq_none.mp hmissing
      have hstep : Step .analysis s (s.seedEdge o p) :=
        .address (h (o, p) List.mem_cons_self) (hnodes o (by simp)) (hnodes p (by simp))
      have hrest : ∀ e ∈ edges, e ∈ (s.seedEdge o p).addressEdges := fun e he =>
        h e (List.mem_cons_of_mem _ he)
      rcases List.mem_cons.mp he with rfl | he
      · have hgrows := Steps.grows (L := .analysis) (hs.step hstep) (steps_seedEdges hrest)
        exact hgrows.pointsTo (mem_pointsTo_seedEdge.mpr (.inl ⟨.refl s p, rfl⟩))
      · exact ih (hs.step hstep) hrest hok he

theorem ValidBut.seedEdge (hv : s.Valid) (o p : NodeId) : (s.seedEdge o p).Valid := by
  have hadded : (s.addObject p o).1.Valid := hv.congr rfl rfl rfl rfl rfl
  exact (hadded.enqueue p).congr rfl rfl rfl rfl rfl

theorem waiting_seedEdge (hv : s.Valid) (o p : NodeId) : (s.seedEdge o p).Waiting p :=
  waiting_enqueue (s := (s.addObject p o).1) hv.worklist hv.classes p

/-- An address edge leaves every other class alone, and its own class waits. -/
theorem Noticed.seedEdge (hv : s.Valid) (o p n : NodeId) : s.Noticed (s.seedEdge o p) n := by
  refine ⟨fun hw => Waiting.enqueue (s := (s.addObject p o).1) hw hv.worklist p, ?_⟩
  by_cases hn : s.Same n p
  · exact .inl ((waiting_seedEdge hv o p).same hn.symm)
  · refine .inr ⟨id, Nat.le_refl _, rfl, fun _ x => ?_, rfl, rfl, rfl⟩
    rw [mem_pointsTo_seedEdge]
    exact or_iff_right fun h => hn h.1

theorem Noticed.seedEdges (hv : s.Valid) (edges : List (NodeId × NodeId)) (n : NodeId) :
    s.Noticed (s.seedEdges edges).1 n := by
  induction edges generalizing s with
  | nil => exact .refl s n
  | cons e edges ih =>
    obtain ⟨o, p⟩ := e
    unfold Solver.seedEdges
    split
    · exact .refl s n
    · exact (Noticed.seedEdge hv o p n).trans (ih (hv.seedEdge o p))

/-- Once the address edges were looked at, the classes of their pointers wait. -/
theorem waiting_seedEdges (hv : s.Valid) (hok : (s.seedEdges edges).2 = .ok ())
    (h : (o, p) ∈ edges) : (s.seedEdges edges).1.Waiting p := by
  induction edges generalizing s with
  | nil => cases h
  | cons e edges ih =>
    obtain ⟨o', p'⟩ := e
    unfold Solver.seedEdges at hok ⊢
    cases hmissing : s.graph.missing? [o', p'] with
    | some n =>
      rw [hmissing] at hok
      cases hok
    | none =>
      rw [hmissing] at hok
      have hv' := hv.seedEdge o' p'
      rcases List.mem_cons.mp h with heq | h
      · obtain ⟨rfl, rfl⟩ := Prod.mk.inj heq
        exact (Noticed.seedEdges hv' edges p).waiting (waiting_seedEdge hv o p)
      · exact ih hv' hok h

/-! ## The drain -/

/-- A class that is taken from those that wait is given by its representative. -/
theorem representative_of_dequeue? (hv : s.Valid) (h : s.dequeue? = some (rep, t)) :
    t.countPop.representative rep = rep := by
  obtain ⟨m, w, -, rfl, rfl⟩ := dequeue?_cases h
  exact hv.classes.find_find m

theorem steps_of_dequeue? (hv : s.Valid) (h : s.dequeue? = some (rep, t)) :
    Steps L s (t.countPop.treat rep).1 := by
  have hcount : Step L t t.countPop := .note rfl rfl
  have htreat : Step L t.countPop (t.countPop.treat rep).1 :=
    .treat (representative_of_dequeue? hv h)
  exact .head (.pop h) (.head hcount (.single htreat))

/-- **What treating a class keeps, a drain keeps.** -/
theorem drain_keeps {I : Solver → Prop} (hs : s.Coherent)
    (hI : ∀ {s t rep}, s.Coherent → I s → s.dequeue? = some (rep, t) → I (t.countPop.treat rep).1)
    (h : I s) (steps : Nat) : I (drain steps s).1 := by
  induction steps generalizing s with
  | zero => exact h
  | succ steps ih =>
    unfold drain
    cases hd : s.dequeue? with
    | none => exact h
    | some popped =>
      obtain ⟨rep, t⟩ := popped
      have htreat := hI hs h hd
      have hcoherent := hs.steps (steps_of_dequeue? (L := .analysis) hs.valid hd)
      dsimp only
      cases hres : t.countPop.treat rep with
      | mk u outcome =>
        rw [hres] at htreat hcoherent
        cases outcome with
        | error e => exact htreat
        | ok _ => exact ih hcoherent htreat

theorem steps_drain (hs : s.Coherent) (steps : Nat) : Steps L s (drain steps s).1 :=
  drain_keeps (I := Steps L s) hs (fun ht h hd => h.trans (steps_of_dequeue? ht.valid hd)) .refl
    steps

/-- A drain leaves graph, calls and what was given alone. -/
theorem frame_drain (hs : s.Coherent) (steps : Nat) : s.Frame (drain steps s).1 := by
  refine drain_keeps (I := s.Frame) hs (fun {t u rep} ht h hd => ?_) (.refl s) steps
  have hrep := representative_of_dequeue? ht.valid hd
  have hvu := (ht.valid.dequeue? hd).count u.countPop.counters
  obtain ⟨m, w, -, -, rfl⟩ := dequeue?_cases hd
  have hpop : t.Frame { t with worklist := w }.countPop :=
    ⟨rfl, rfl, rfl, rfl, rfl, rfl, rfl, rfl, rfl, rfl, rfl⟩
  exact (h.trans hpop).trans (Frame.treat hvu hrep)

/-- Taking a class makes a drain shorter by one step. -/
theorem pressure_of_dequeue? (h : s.dequeue? = some (rep, t)) :
    t.countPop.pressure + 1 = s.pressure := by
  obtain ⟨m, w, hpop, -, rfl⟩ := dequeue?_cases h
  have hsize := Worklist.size_of_pop? hpop
  simp only [pressure, countPop]
  omega

/-! ## What treating a class brings about -/

/-- **A property of nodes that treating their class brings about**, unless the class waits again,
and that lasts while the class is left alone. -/
structure Attained (P : Solver → NodeId → Prop) : Prop where
  lasts : ∀ {s t : Solver} {n}, s.Valid → t.Valid → s.Unmoved t n → P s n → P t n
  treated : ∀ {s : Solver} {n rep}, s.Valid → s.representative rep = rep →
    (s.treat rep).2 = .ok () → s.Same n rep → (s.treat rep).1.Waiting n ∨ P (s.treat rep).1 n

theorem attained_settled : Attained Settled where
  lasts hs ht hmoved hn := hmoved.settled hs.graph ht.graph hn
  treated := waiting_or_settled_treat

/-- What a node waits for or has, it goes on waiting for or having. -/
theorem Attained.noticed (hP : Attained P) (hs : s.Valid) (ht : t.Valid) (h : s.Noticed t n)
    (hn : s.Waiting n ∨ P s n) : t.Waiting n ∨ P t n := by
  rcases hn with hw | hn
  · exact .inl (h.waiting hw)
  · exact h.unmoved.imp_right fun hmoved => hP.lasts hs ht hmoved hn

theorem not_waiting_of_idle (hidle : s.worklist.toList = []) : ¬ s.Waiting n := by
  rintro ⟨w, hw, -⟩
  rw [hidle] at hw
  cases hw

/-- When a class is taken and treated, every node goes on as before: those of the class by what
treating does, and all others because it is noticed. -/
theorem Attained.treat (hP : Attained P) (hv : s.Valid) (hd : s.dequeue? = some (rep, t))
    (hok : (t.countPop.treat rep).2 = .ok ()) (hn : s.Waiting n ∨ P s n) :
    (t.countPop.treat rep).1.Waiting n ∨ P (t.countPop.treat rep).1 n := by
  have hrep := representative_of_dequeue? hv hd
  have hvt : t.countPop.Valid := (hv.dequeue? hd).congr rfl rfl rfl rfl rfl
  by_cases hsame : t.countPop.Same n rep
  · exact hP.treated hvt hrep hok hsame
  · refine hP.noticed hvt (hvt.treat hrep) (.treat hvt hrep hsame) ?_
    obtain ⟨m, w, hpop, rfl, rfl⟩ := dequeue?_cases hd
    rcases hn with ⟨x, hx, hxn⟩ | hn
    · rcases (Worklist.mem_of_pop? hpop).mp hx with rfl | hx
      · exact absurd (hxn.symm.trans (same_representative hv.classes x)) hsame
      · exact .inl ⟨x, hx, hxn⟩
    · exact .inr (hP.lasts hv hvt (.aside s n) hn)

/-- **What treating a class brings about, a drain that does not fail brings about**, given as many
steps as the pressure. -/
theorem Attained.drain (hP : Attained P) {steps : Nat} (hv : s.Valid) (hsteps : s.pressure ≤ steps)
    (hok : (drain steps s).2 = .ok ()) (hn : s.Waiting n ∨ P s n) : P (drain steps s).1 n := by
  -- On the steps, with the pressure as measure: each step takes one class, and merging makes
  -- another one wait only when there is one class less.
  induction steps generalizing s with
  | zero =>
    refine hn.resolve_left (not_waiting_of_idle ?_)
    have hsize : s.worklist.size = 0 := by
      unfold pressure at hsteps
      omega
    rw [← List.length_eq_zero_iff, Worklist.length_toList]
    exact hsize
  | succ steps ih =>
    unfold Solver.drain at hok ⊢
    cases hd : s.dequeue? with
    | none =>
      refine hn.resolve_left (not_waiting_of_idle ?_)
      unfold dequeue? at hd
      split at hd
      · rename_i hpop
        exact Worklist.toList_eq_nil_of_pop? hpop
      · cases hd
    | some popped =>
      obtain ⟨rep, t⟩ := popped
      have hrep := representative_of_dequeue? hv hd
      have hvt : t.countPop.Valid := (hv.dequeue? hd).congr rfl rfl rfl rfl rfl
      have hpressure := pressure_of_dequeue? hd
      have htreat := pressure_treat_le hvt hrep
      rw [hd] at hok
      dsimp only at hok ⊢
      cases hres : t.countPop.treat rep with
      | mk u outcome =>
        rw [hres] at hok
        cases outcome with
        | error e => cases hok
        | ok _ =>
          have hnext := hP.treat hv hd (by rw [hres]) hn
          have hvu := hvt.treat hrep
          rw [hres] at hvu htreat hnext
          change u.pressure ≤ _ at htreat
          exact ih hvu (by omega) hok hnext

/-! ## Solving -/

/-- **Every node is settled, and every address edge holds.** -/
structure Solved (s : Solver) : Prop where
  settled : ∀ n, s.Settled n
  seeded : s.seeded = true

theorem pressure_le_drainBound (s : Solver) : s.pressure ≤ s.drainBound := by
  have hcount := Partition.countClasses_le s.classes s.graph.nodeIds
  have hlength : s.graph.nodeIds.length = s.graph.nodeCount := List.length_range
  unfold pressure drainBound
  omega

/-- When all address edges were looked at, every object is where it belongs and the mark may be
set. -/
theorem steps_seed (hs : s.Coherent) (h : s.seed = (t, .ok ())) :
    Steps L s { t with seeded := true } := by
  have hsteps := steps_seedEdges (L := L) (s := s) fun e he => he
  have hgrows := hsteps.grows hs
  have hmem := @mem_pointsTo_seedEdges s s.addressEdges hs fun e he => he
  unfold seed at h
  rw [h] at hsteps hgrows hmem
  exact .tail hsteps (.seeded fun e he => hmem rfl (hgrows.addressEdges ▸ he))

/-- What solving does: at first the address edges, whose pointers then wait, and a drain after
it. -/
theorem solve_cases (hs : s.Coherent) :
    (∃ e, s.solve = ((s.seedEdges s.addressEdges).1, .error e) ∧
      (s.seedEdges s.addressEdges).2 = .error e) ∨
    ∃ t, Steps L s t ∧ { s with seeded := true }.Frame t ∧ (∀ n, s.Noticed t n) ∧
      (s.seeded = false → ∀ e ∈ s.addressEdges, t.Waiting e.2) ∧
      s.solve = Solver.drain t.drainBound t := by
  unfold solve
  split
  · rename_i hseeded
    refine .inr ⟨s, .refl, ?_, Noticed.refl s, fun h => ?_, rfl⟩
    · exact ⟨rfl, rfl, rfl, rfl, rfl, rfl, rfl, rfl, rfl, rfl, hseeded⟩
    · rw [hseeded] at h
      cases h
  · have hframe := s.frame_seedEdges s.addressEdges
    have hnoticed := Noticed.seedEdges hs.valid s.addressEdges
    have hwaits := @waiting_seedEdges s s.addressEdges
    cases hseed : s.seed with
    | mk t outcome =>
      unfold seed at hseed
      rw [hseed] at hframe hnoticed hwaits ⊢
      cases outcome with
      | error e => exact .inl ⟨e, rfl, rfl⟩
      | ok _ =>
        refine .inr ⟨{ t with seeded := true }, steps_seed hs hseed, ?_, fun n => ?_,
          fun _ e he => hwaits hs.valid rfl he, rfl⟩
        · exact ⟨hframe.settings, hframe.graph, hframe.outsideAddresses, hframe.functions,
            hframe.sites, hframe.calls, hframe.allocations, hframe.rounds, hframe.callEdges,
            hframe.dummies, rfl⟩
        · exact (hnoticed n).trans (.aside t n fun _ => id)

/-- Solving leaves graph, calls and what was given alone, but for the mark of the address edges. -/
theorem frame_solve (hs : s.Coherent) : ∃ seeded, { s with seeded }.Frame s.solve.1 := by
  rcases solve_cases (L := .analysis) hs with ⟨e, heq, -⟩ | ⟨t, hsteps, hframe, -, -, heq⟩
  · rw [heq]
    exact ⟨s.seeded, s.frame_seedEdges s.addressEdges⟩
  · rw [heq]
    exact ⟨true, hframe.trans (frame_drain (hs.steps hsteps) _)⟩

/-- **Solving is a sequence of steps.** -/
theorem steps_solve (hs : s.Coherent) : Steps L s s.solve.1 := by
  rcases solve_cases (L := L) hs with ⟨e, heq, -⟩ | ⟨t, hsteps, -, -, -, heq⟩
  · rw [heq]
    exact steps_seedEdges fun e he => he
  · rw [heq]
    exact hsteps.trans (steps_drain (hs.steps hsteps) _)

theorem seeded_solve (hs : s.Coherent) (hok : s.solve.2 = .ok ()) : s.solve.1.seeded = true := by
  rcases solve_cases (L := .analysis) hs with ⟨e, heq, -⟩ | ⟨t, hsteps, hframe, -, -, heq⟩
  · rw [heq] at hok
    cases hok
  · rw [heq]
    exact (frame_drain (hs.steps hsteps) _).seeded.trans hframe.seeded

/-- **What treating a class brings about, solving brings about**, unless it fails. -/
theorem Attained.solve (hP : Attained P) (hs : s.Coherent) (hok : s.solve.2 = .ok ())
    (hn : s.Waiting n ∨ P s n) : P s.solve.1 n := by
  rcases solve_cases (L := .analysis) hs with ⟨e, heq, -⟩ | ⟨t, hsteps, -, hnoticed, -, heq⟩
  · rw [heq] at hok
    cases hok
  · have ht := (hs.steps hsteps).valid
    rw [heq] at hok ⊢
    exact hP.drain ht (pressure_le_drainBound t) hok (hP.noticed hs.valid ht (hnoticed n) hn)

/-- When the address edges were not looked at before, solving treats the classes of their
pointers. -/
theorem Attained.solve_pointer (hP : Attained P) (hs : s.Coherent) (hok : s.solve.2 = .ok ())
    (hseeded : s.seeded = false) (h : (o, p) ∈ s.addressEdges) : P s.solve.1 p := by
  rcases solve_cases (L := .analysis) hs with ⟨e, heq, -⟩ | ⟨t, hsteps, -, -, hwaits, heq⟩
  · rw [heq] at hok
    cases hok
  · rw [heq] at hok ⊢
    exact hP.drain (hs.steps hsteps).valid (pressure_le_drainBound t) hok
      (.inl (hwaits hseeded _ h))

/-- **Solving a poised state solves it**, unless it fails. -/
theorem solved_solve (hs : s.Coherent) (hp : s.Poised) (hok : s.solve.2 = .ok ()) :
    s.solve.1.Solved :=
  ⟨fun n => attained_settled.solve hs hok (hp n), seeded_solve hs hok⟩

end PointsTo.Solver
