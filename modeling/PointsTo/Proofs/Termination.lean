import PointsTo.Proofs.Reachable

/-!
# Termination

The loops of the solver run with a bound on their steps. Here they are written without one, as
relations between a state and a result: a pair is related when the loop started in the state comes
to its end there. Every pop on the way merges nothing and makes no class wait, or leaves fewer
classes; every round that is not the last one connects a pair of a site and a function that was not
connected. So both measures run out, the loops end from every state, and the bounds are never what
ends them.

## Main definitions

* `Solver.Progress`: what treating one class does to the measure of a drain
* `Solver.Drains`, `Solver.Solves`: draining and solving without a bound
* `Analysis.Rounds`, `Analysis.Runs`: the rounds of an analysis, and an analysis, without a bound

## Main results

* `Progress.treat`: treating a class makes progress
* `drains_drain`: a drain with as many steps as the pressure ends as one without a bound does
* `rounds_runRounds`: so do as many rounds as there are pairs left
* `solves_solve`, `runs_run`: solving and running terminate
-/

namespace PointsTo

namespace Solver

variable {s t u : Solver} {R : NodeId → NodeId → Prop} {held : ClassEdges} {rep : NodeId}

/-! ## Draining -/

/-- **Nothing was merged and no class was made to wait, or there are fewer classes.** -/
def Progress (s t : Solver) : Prop :=
  (t.classes = s.classes ∧ t.counters.merges = s.counters.merges ∧ t.worklist = s.worklist) ∨
    t.classes.countClasses t.graph.nodeIds < s.classes.countClasses s.graph.nodeIds

/-- Draining without a bound on the steps: the loop ends when no class waits or one is refused, and
every class that it takes makes progress. -/
inductive Drains : Solver → Solver × Except AnalysisError Unit → Prop
  /-- No class waits. -/
  | idle {s : Solver} : s.dequeue? = none → Drains s (s, .ok ())
  /-- A class is refused. -/
  | refused {s t u : Solver} {rep : NodeId} {e : AnalysisError} : s.dequeue? = some (rep, t) →
      t.countPop.treat rep = (u, .error e) → Progress t u → Drains s (u, .error e)
  /-- A class is treated, and the loop goes on. -/
  | next {s t u : Solver} {rep : NodeId} {result : Solver × Except AnalysisError Unit} :
      s.dequeue? = some (rep, t) → t.countPop.treat rep = (u, .ok ()) → Progress t u →
      Drains u result → Drains s result

/-- Solving without a bound: the address edges at first, then a drain. -/
inductive Solves : Solver → Solver × Except AnalysisError Unit → Prop
  /-- The address edges were looked at before. -/
  | seeded {s : Solver} {result : Solver × Except AnalysisError Unit} : s.seeded = true →
      Drains s result → Solves s result
  /-- An address edge is refused. -/
  | refused {s t : Solver} {e : AnalysisError} : s.seeded = false → s.seed = (t, .error e) →
      Solves s (t, .error e)
  /-- The address edges, and then a drain. -/
  | seed {s t : Solver} {result : Solver × Except AnalysisError Unit} : s.seeded = false →
      s.seed = (t, .ok ()) → Drains { t with seeded := true } result → Solves s result

/-- Unifying pairs of nodes of the graph makes progress. -/
theorem Progress.joins (h : Joins R s t) (hv : s.ValidBut held)
    (hR : ∀ a b, R a b → s.graph.hasNode a = true ∧ s.graph.hasNode b = true) : s.Progress t := by
  induction h with
  | refl => exact .inl ⟨rfl, rfl, rfl⟩
  | @tail t counters a b hst hc hab ih =>
    have hgraph : t.graph = s.graph := hst.frame.graph
    have hmerges := congrArg Counters.merges hc
    rcases { t with counters }.unify_cases a b with ⟨-, heq⟩ | ⟨lost, survivor, hj, heq⟩
    · rw [heq]
      exact ih.imp_left fun h => ⟨h.1, hmerges.trans h.2.1, h.2.2⟩
    · have hnodes := hR a b hab
      rw [← hgraph] at hnodes
      have hless := hj.countClasses (hst.validBut hv).classes hnodes.1 hnodes.2
      have hbefore : t.classes.countClasses t.graph.nodeIds ≤
          s.classes.countClasses s.graph.nodeIds := by
        rcases ih with ⟨hclasses, -, -⟩ | hlt
        · rw [hclasses, hgraph]
        · exact Nat.le_of_lt hlt
      right
      rw [heq]
      change (Solver.join _ _ _).classes.countClasses (Solver.join _ _ _).graph.nodeIds < _
      rw [join_eq]
      dsimp only at hless ⊢
      omega

/-- **Treating a class makes progress.** Moving constraints from the graph to the class is no part
of the measure. -/
theorem Progress.treat (hv : s.Valid) (hrep : s.representative rep = rep) :
    s.Progress (s.treat rep).1 := by
  obtain ⟨edges, loaded, held, hvalid, hjoins⟩ := joins_treat hv hrep
  exact Progress.joins (s := { s with edges, loaded }) hjoins hvalid
    fun a b hab => ⟨hab.left, hab.right⟩

theorem dequeue?_eq_none (h : s.worklist.size = 0) : s.dequeue? = none := by
  cases hd : s.dequeue? with
  | none => rfl
  | some popped =>
    obtain ⟨rep, t⟩ := popped
    obtain ⟨m, w, hpop, -, -⟩ := dequeue?_cases hd
    have hsize := Worklist.size_of_pop? hpop
    omega

/-- **As many steps as the pressure are enough for a drain.** -/
theorem drains_drain {steps : Nat} (hs : s.Coherent) (hsteps : s.pressure ≤ steps) :
    Drains s (drain steps s) := by
  induction steps generalizing s with
  | zero =>
    refine .idle (dequeue?_eq_none ?_)
    unfold pressure at hsteps
    omega
  | succ steps ih =>
    unfold drain
    cases hd : s.dequeue? with
    | none => exact .idle hd
    | some popped =>
      obtain ⟨rep, t⟩ := popped
      have hrep := representative_of_dequeue? hs.valid hd
      have hvt : t.countPop.Valid := (hs.valid.dequeue? hd).congr rfl rfl rfl rfl rfl
      have hprogress : t.Progress (t.countPop.treat rep).1 := Progress.treat hvt hrep
      have hcoherent := hs.steps (steps_of_dequeue? (L := .analysis) hs.valid hd)
      have hpressure := pressure_of_dequeue? hd
      have htreat := pressure_treat_le hvt hrep
      dsimp only
      cases hres : t.countPop.treat rep with
      | mk u outcome =>
        rw [hres] at hprogress hcoherent htreat
        cases outcome with
        | error e => exact .refused hd hres hprogress
        | ok _ =>
          refine .next hd hres hprogress (ih hcoherent ?_)
          change u.pressure ≤ _ at htreat
          omega

/-- **Solving terminates.** -/
theorem solves_solve (hs : s.Coherent) : Solves s s.solve := by
  have hdrain : ∀ {t : Solver}, t.Coherent → Drains t (drain t.drainBound t) := fun ht =>
    drains_drain ht (pressure_le_drainBound _)
  unfold solve
  split
  · rename_i hseeded
    exact .seeded hseeded (hdrain hs)
  · rename_i hseeded
    rw [Bool.not_eq_true] at hseeded
    cases hseed : s.seed with
    | mk t outcome =>
      cases outcome with
      | error e => exact .refused hseeded hseed
      | ok _ =>
        have hsteps : Steps .analysis s { t with seeded := true } := steps_seed hs hseed
        exact .seed hseeded hseed (hdrain (hs.steps hsteps))

end Solver

/-! ## Rounds -/

namespace Analysis

open Solver

variable {σ : Type} {a : Analysis σ}

/-- The analysis after a round in which the source was asked about `t` and `u` came of its
answer. -/
def after (a : Analysis σ) (t u : Solver) : Analysis σ :=
  { a with solver := u, memory := (a.source.next t a.memory).2 }

/-- **One round without a bound**: solving ends in `t` and connecting the answer of the source in
`u`. When a callee is new, a pair that was left is connected. -/
structure Goes (a : Analysis σ) (rounds : Nat) (t u : Solver)
    (outcome : Except AnalysisError Bool) : Prop where
  solve : Solves (a.solver.report (.roundStarted rounds)) (t, .ok ())
  connect : t.connect (a.source.next t a.memory).1 = (u, outcome)
  gains : outcome = .ok true → t.Gains u

/-- Rounds without a bound on their number. -/
inductive Rounds : Analysis σ → Nat → Analysis σ × Except AnalysisError Nat → Prop
  /-- Solving fails. -/
  | refused {a : Analysis σ} {rounds : Nat} {t : Solver} {e : AnalysisError} :
      Solves (a.solver.report (.roundStarted rounds)) (t, .error e) →
      Rounds a rounds ({ a with solver := t }, .error e)
  /-- The source answers an unknown name. -/
  | unknown {a : Analysis σ} {rounds : Nat} {t u : Solver} {e : AnalysisError} :
      a.Goes rounds t u (.error e) → Rounds a rounds (a.after t u, .error e)
  /-- Nothing new is connected. -/
  | stable {a : Analysis σ} {rounds : Nat} {t u : Solver} :
      a.Goes rounds t u (.ok false) → Rounds a rounds (a.after t u, .ok rounds)
  /-- The settings allow no other round; what waits is treated still. -/
  | limit {a : Analysis σ} {rounds limit : Nat} {t u v : Solver}
      {outcome : Except AnalysisError Unit} : a.Goes rounds t u (.ok true) →
      u.settings.maxCallGraphRounds = some limit → limit ≤ rounds + 1 →
      Solves (u.report (.roundLimitReached limit)) (v, outcome) →
      Rounds a rounds ({ a.after t u with solver := v }, outcome.map fun _ => rounds + 1)
  /-- A callee is new, and another round follows. -/
  | next {a : Analysis σ} {rounds : Nat} {t u : Solver}
      {result : Analysis σ × Except AnalysisError Nat} : a.Goes rounds t u (.ok true) →
      (∀ limit, u.settings.maxCallGraphRounds = some limit → rounds + 1 < limit) →
      Rounds (a.after t u) (rounds + 1) result → Rounds a rounds result

/-- An analysis without a bound. -/
inductive Runs : Analysis σ → Analysis σ × Except AnalysisError Unit → Prop
  /-- A round fails. -/
  | fails {a b : Analysis σ} {e : AnalysisError} :
      Rounds { a with solver := start a.solver } 0 (b, .error e) → Runs a (b, .error e)
  /-- The rounds come to their end. -/
  | ends {a b : Analysis σ} {rounds : Nat} :
      Rounds { a with solver := start a.solver } 0 (b, .ok rounds) →
      Runs a ({ b with solver := finish b.solver rounds }, .ok ())

/-- A round of the bounded loop is one without a bound. -/
theorem goes_of_connect {rounds : Nat} {t u : Solver} {outcome : Except AnalysisError Bool}
    (hs : a.solver.Coherent)
    (hsolve : (a.solver.report (.roundStarted rounds)).solve = (t, .ok ()))
    (hconnect : t.connect (a.source.next t a.memory).1 = (u, outcome)) :
    a.Goes rounds t u outcome := by
  have hreport := hs.report (.roundStarted rounds)
  have hsolves := solves_solve hreport
  have hsteps : Steps .analysis _ _ := steps_solve hreport
  rw [hsolve] at hsolves hsteps
  refine ⟨hsolves, hconnect, fun hnew => ?_⟩
  rw [hnew] at hconnect
  exact gains_of_connect (hreport.steps hsteps).registered hconnect

/-- **More rounds than pairs are left are enough.** -/
theorem rounds_runRounds {fuel : Nat} (hs : a.solver.Coherent)
    (hfuel : a.solver.unconnected < fuel) (rounds : Nat) :
    Rounds a rounds (a.runRounds fuel rounds) := by
  -- On the fuel, which stays above the number of pairs left.
  induction fuel generalizing a rounds with
  | zero => cases hfuel
  | succ fuel ih =>
    have hsolves := solves_solve (hs.report (.roundStarted rounds))
    rw [runRounds]
    cases hsolve : (a.solver.report (.roundStarted rounds)).solve with
    | mk t outcome =>
      rw [hsolve] at hsolves
      cases outcome with
      | error e => exact .refused hsolves
      | ok _ =>
        dsimp only [targets]
        cases hconnect : t.connect (a.source.next t a.memory).1 with
        | mk u outcome =>
          have hgoes := goes_of_connect hs hsolve hconnect
          cases outcome with
          | error e => exact .unknown hgoes
          | ok new =>
            cases new with
            | false => exact .stable hgoes
            | true =>
              have hround : CallRound a.source a.solver t u true :=
                ⟨⟨rounds, hsolve⟩, ⟨a.memory, hconnect⟩⟩
              obtain ⟨hst, htu⟩ := hround.steps (L := .analysis) (Licence.le_refl _) hs
              have hu := hs.steps (hst.trans htu)
              have hleft : u.unconnected < fuel :=
                Nat.lt_of_lt_of_le (hround.unconnected_lt hs) (Nat.le_of_lt_succ hfuel)
              have hnext := ih (a := a.after t u) hu hleft (rounds + 1)
              dsimp only
              cases hmax : u.settings.maxCallGraphRounds with
              | none => exact .next hgoes (fun limit h => by rw [hmax] at h; cases h) hnext
              | some limit =>
                dsimp only
                split
                · rename_i hlimit
                  exact .limit hgoes hmax hlimit (solves_solve (hu.report _))
                · rename_i hlimit
                  refine .next hgoes (fun limit' h => ?_) hnext
                  rw [hmax] at h
                  cases h
                  exact Nat.lt_of_not_le hlimit

/-- **An analysis terminates**, whatever source it asks. -/
theorem runs_run (hs : a.solver.Coherent) : Runs a a.run := by
  have hstart := hs.steps (steps_start (L := .analysis) a.solver)
  have hrounds := rounds_runRounds (a := { a with solver := start a.solver }) hstart
    (Nat.lt_succ_of_le (unconnected_le _)) 0
  unfold run
  dsimp only at hrounds ⊢
  cases hres : { a with solver := start a.solver }.runRounds
      ((start a.solver).pairBound + 1) 0 with
  | mk b outcome =>
    rw [hres] at hrounds
    cases outcome with
    | error e => exact .fails hrounds
    | ok rounds => exact .ends hrounds

/-- Each round that is counted connected a pair that was left. -/
theorem runRounds_le {b : Analysis σ} {fuel rounds n : Nat} (hs : a.solver.Coherent)
    (hok : a.runRounds fuel rounds = (b, .ok n)) : n ≤ rounds + a.solver.unconnected := by
  induction fuel generalizing a rounds with
  | zero =>
    obtain ⟨-, hn⟩ := Prod.mk.inj hok
    injection hn with hn
    omega
  | succ fuel ih =>
    rcases a.runRounds_succ fuel rounds with ⟨t, e, -, heq⟩ | ⟨t, memory, hres, hround⟩
    · rw [hok] at heq
      cases heq
    · rcases hround with ⟨u, e, -, heq⟩ | ⟨u, -, heq⟩ | ⟨u, hres', hnext⟩
      · rw [hok] at heq
        cases heq
      · rw [hok] at heq
        obtain ⟨-, hn⟩ := Prod.mk.inj heq
        injection hn with hn
        omega
      · have hround : CallRound a.source a.solver t u true := ⟨⟨rounds, hres⟩, ⟨a.memory, hres'⟩⟩
        have hless := hround.unconnected_lt hs
        obtain ⟨hst, htu⟩ := hround.steps (L := .analysis) (Licence.le_refl _) hs
        rcases hnext with ⟨limit, -, heq⟩ | heq
        · rw [hok] at heq
          unfold stopAtLimit at heq
          cases hlast : (u.report (.roundLimitReached limit)).solve with
          | mk v outcome =>
            dsimp only at heq
            rw [hlast] at heq
            cases outcome with
            | error e => cases heq
            | ok _ =>
              obtain ⟨-, hn⟩ := Prod.mk.inj heq
              injection hn with hn
              change n = rounds + 1 at hn
              omega
        · have hrest := ih (a := { a with solver := u, memory }) (hs.steps (hst.trans htu))
            (heq ▸ hok)
          dsimp only at hrest
          omega

end Analysis

end PointsTo
