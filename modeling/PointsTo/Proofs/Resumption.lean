import PointsTo.Proofs.Confluence
import PointsTo.Proofs.Ordered

/-!
# Resumption

An analysis that has used up its rounds can be taken up again. The rounds that nothing stops form a
course: some rounds that connect a new callee, then one that connects none, after which further
rounds change nothing that the ledger holds. Where on this course a solver stands is told by its
ledger. A run under a limit goes on from there; it halts when it has made as many rounds as it is
allowed, or at the end of the course. So runs under a small limit, one after the other, halt where a
single run halts that is allowed as many rounds as all of them.

## Main definitions

* `Solver.nextRound`, `Solver.afterRounds`: the rounds that nothing stops
* `Solver.Course`: a number of rounds that connect a new callee, then one that connects none
* `Solver.Course.halt`: where on the course a run halts that is allowed a number of rounds
* `Solver.Pause`: a stage that stands at a place on the course

## Main results

* `Stage.exists_course`: the rounds come to an end
* `Course.nextRound_end`: at the end of the course a round changes nothing
* `Pause.runRounds`, `Pause.analyze`: where a run under a limit halts
* `resumes_analyze`: an analysis under a limit is resumable
-/

namespace PointsTo

namespace Solver

variable {base base' origin s t u : Solver} {N n k c rounds count : Nat} {new : Bool}
  {limit : Option Nat}

/-! ## The course of the rounds -/

/-- One more round: solving, then connecting what the sets show. -/
def nextRound (s : Solver) : Solver × Except AnalysisError Bool :=
  let t := (s.report (.roundStarted 0)).solve.1
  t.connect t.newTargets

/-- The state after a number of rounds that nothing stops. -/
def afterRounds (s : Solver) : Nat → Solver
  | 0 => Analysis.start s
  | n + 1 => (s.afterRounds n).nextRound.1

theorem Turn.nextRound (h : Turn base 0 s t u new) : s.nextRound = (u, .ok new) := by
  unfold Solver.nextRound
  rw [h.solve]
  exact h.connect

/-- All rounds start from a stage that is poised. -/
theorem Stage.afterRounds (h : Stage base s) (n : Nat) :
    Stage base (s.afterRounds n) ∧ (s.afterRounds n).Poised := by
  induction n with
  | zero => exact ⟨h.start, Analysis.poised_start h.minimal.coherent⟩
  | succ n ih =>
    obtain ⟨t, u, new, hturn⟩ := ih.1.turn ih.2 0
    rw [Solver.afterRounds, hturn.nextRound]
    exact ⟨hturn.next, hturn.poised⟩

/-- **The course of the rounds**: `N` rounds connect a new callee, the one after them connects
none. -/
structure Course (origin : Solver) (N : Nat) : Prop where
  stage : Stage origin origin
  earlier : ∀ {n}, n < N → (origin.afterRounds n).nextRound.2 = .ok true
  last : (origin.afterRounds N).nextRound.2 = .ok false

/-- **The rounds come to an end**, as each new callee leaves fewer to connect. -/
theorem Stage.exists_course (h : Stage origin origin) : ∃ N, Course origin N := by
  have hcourse : ∀ n, (∀ {i}, i < n → (origin.afterRounds i).nextRound.2 = .ok true) →
      ∃ N, Course origin N := by
    intro n hearlier
    -- On the number of callees that are left after `n` rounds.
    induction hleft : (origin.afterRounds n).unconnected using Nat.strong_induction_on
      generalizing n with
    | _ left ih =>
      obtain ⟨hstage, hpoised⟩ := h.afterRounds n
      obtain ⟨t, u, new, hturn⟩ := hstage.turn hpoised 0
      have hnew : (origin.afterRounds n).nextRound.2 = .ok new :=
        congrArg Prod.snd hturn.nextRound
      cases new with
      | false => exact ⟨n, h, hearlier, hnew⟩
      | true =>
        have hless : (origin.afterRounds (n + 1)).unconnected < left := by
          rw [Solver.afterRounds, hturn.nextRound, ← hleft]
          exact hturn.callRound.unconnected_lt hstage.minimal.coherent
        refine ih _ hless (n + 1) (fun {i} hi => ?_) rfl
        rcases Nat.lt_succ_iff_lt_or_eq.mp hi with hi | rfl
        · exact hearlier hi
        · exact hnew
  exact hcourse 0 fun {i} hi => absurd hi (Nat.not_lt_zero i)

/-! ## The end of the course -/

/-- A round that connects nothing closes itself in the call graph and leaves the rest of the ledger
alone. -/
theorem Turn.ledger_false (h : Turn base rounds s t u false) :
    u.ledger =
      { s.ledger with calls := (s.ledger.calls.recordRound ∅ s.ledger.sites.keys).1 } := by
  obtain ⟨heq, -⟩ := connect_eq_false h.registered h.connect
  rw [heq, ← h.ledger]
  rfl

/-- **After a round that connected nothing, so does the next one**, and the ledger stays as it is.
The state was solved before; a new callee would have been shown, and whatever is shown is
connected. -/
theorem Turn.again (h : Turn base rounds s t u false) {t' u' : Solver}
    (h' : Turn base rounds u t' u' new) : new = false ∧ u'.ledger = u.ledger := by
  have halike := h'.stage.alike h.next (fun _ _ _ => rfl) h'.solved h.solved_next h'.ledger
  have hshows := shows_congr (congrArg Ledger.sites halike.ledger)
    (congrArg Ledger.functions halike.ledger) halike.pointsTo
  have hcalls : t'.calls = u.calls := congrArg Ledger.calls halike.ledger
  have hfalse : new = false := by
    rw [Bool.eq_false_iff]
    rintro rfl
    obtain ⟨pair, hleft, hedge⟩ := gains_of_connect h'.registered h'.connect
    refine (Finset.mem_filter.mp hleft).2 ?_
    rcases (hasEdge_connect_newTargets h'.registered h'.connect).mp hedge with hshown | hold
    · rw [hcalls]
      exact hasEdge_of_shows_connect h.registered h.connect ((hshows _ _).mp hshown)
    · exact hold
  subst hfalse
  refine ⟨rfl, ?_⟩
  rw [h'.ledger_false, h.ledger_false]
  dsimp only
  rw [CallGraph.recordRound_recordRound]

/-- **At the end of the course a round changes nothing.** -/
theorem Course.nextRound_end (h : Course origin N) :
    (origin.afterRounds (N + 1)).nextRound.2 = .ok false ∧
      (origin.afterRounds (N + 2)).ledger = (origin.afterRounds (N + 1)).ledger := by
  obtain ⟨hstage, hpoised⟩ := h.stage.afterRounds N
  obtain ⟨t, u, new, hturn⟩ := hstage.turn hpoised 0
  have hlast := h.last
  rw [hturn.nextRound] at hlast
  cases hlast
  obtain ⟨t', u', new', hturn'⟩ := hturn.next.turn hturn.poised 0
  obtain ⟨rfl, hledger⟩ := hturn.again hturn'
  have hend : origin.afterRounds (N + 1) = u := congrArg Prod.fst hturn.nextRound
  have hbeyond : origin.afterRounds (N + 2) = u' := by
    rw [Solver.afterRounds, hend, hturn'.nextRound]
  rw [hbeyond, hend, hturn'.nextRound]
  exact ⟨rfl, hledger⟩

/-! ## Runs under a limit -/

/-- Where on the course a run halts that is allowed `c` rounds: after these, or after the round that
connects nothing. -/
def Course.halt (N c : Nat) : Nat := if c ≤ N then c else N + 1

/-- **A stage that stands on the course after `n` rounds.** -/
structure Pause (base origin : Solver) (n : Nat) (limit : Option Nat) (count : Nat) (s : Solver) :
    Prop where
  edges : ∀ k x y, base.graph.hasEdge k x y = origin.graph.hasEdge k x y
  stage : Stage base s
  ledger : s.ledger = (origin.afterRounds n).ledger.under limit count

/-- **Each round is the next one of the course.** -/
theorem Pause.turn (h : Pause base origin n limit count s) (ho : Stage origin origin)
    (hp : s.Poised) (rounds : Nat) :
    ∃ t u new, Turn base rounds s t u new ∧ (origin.afterRounds n).nextRound.2 = .ok new ∧
      Pause base origin (n + 1) limit count u := by
  obtain ⟨t, u, new, hturn⟩ := h.stage.turn hp rounds
  obtain ⟨t', u', new', hturn'⟩ := (ho.afterRounds n).1.turn (ho.afterRounds n).2 0
  obtain ⟨hledger, rfl⟩ := hturn.ledger_next hturn' h.edges h.ledger
  refine ⟨t, u, new, hturn, congrArg Prod.snd hturn'.nextRound, h.edges, hturn.next, ?_⟩
  rw [hledger, Solver.afterRounds, hturn'.nextRound]

/-- **Where the rounds of a run under a limit halt**, and how many of them connect a callee. -/
theorem Pause.runRounds {σ : Type} {a : Analysis σ} (hc : Course origin N)
    (ha : a.source = .builtin) (h : Pause base origin n (some k) count a.solver)
    (hp : a.solver.Poised) (hn : n ≤ N) (hrounds : rounds < k) {fuel : Nat}
    (hfuel : a.solver.unconnected < fuel) :
    ∃ b, a.runRounds fuel rounds = (b, .ok (min k (rounds + (N - n)))) ∧
      Pause base origin (Course.halt N (n + (k - rounds))) (some k) count b.solver := by
  -- On the fuel; each round is one more of those allowed and one step along the course.
  induction fuel generalizing a n rounds with
  | zero => cases hfuel
  | succ fuel ih =>
    obtain ⟨t, u, new, hturn, hnext, hu⟩ := h.turn hc.stage hp rounds
    rw [Analysis.runRounds_of_round hturn.solve (by rw [ha]; exact hturn.connect)]
    cases new with
    | false =>
      obtain rfl : n = N := by
        refine Nat.le_antisymm hn (Nat.le_of_not_lt fun hlt => ?_)
        rw [hc.earlier hlt] at hnext
        cases hnext
      have hcount : min k (rounds + (n - n)) = rounds := by omega
      have hhalt : Course.halt n (n + (k - rounds)) = n + 1 := if_neg (by omega)
      rw [hcount, hhalt]
      exact ⟨_, rfl, hu⟩
    | true =>
      have hlt : n < N := by
        refine Nat.lt_of_le_of_ne hn fun heq => ?_
        rw [heq, hc.last] at hnext
        cases hnext
      have hlimit : u.settings.maxCallGraphRounds = some k := congrArg Ledger.limit hu.ledger
      rw [if_pos rfl, hlimit]
      by_cases hk : k ≤ rounds + 1
      · have hcount : min k (rounds + (N - n)) = rounds + 1 := by omega
        have hleft : n + (k - rounds) = n + 1 := by omega
        have hhalt : Course.halt N (n + 1) = n + 1 := if_pos hlt
        obtain ⟨v, hlast, hv, -, hvl⟩ := hturn.next.solve hturn.poised (.roundLimitReached k)
        rw [Option.filter_some_pos (by simpa using hk), hcount, hleft, hhalt]
        exact ⟨_, Analysis.stopAtLimit_of_solve hlast, hu.edges, hv, hvl.trans hu.ledger⟩
      · have hless := hturn.callRound.unconnected_lt h.stage.minimal.coherent
        have hcount : min k (rounds + (N - n)) = min k (rounds + 1 + (N - (n + 1))) := by omega
        have hleft : n + (k - rounds) = n + 1 + (k - (rounds + 1)) := by omega
        rw [Option.filter_some_neg (by simpa using hk), hcount, hleft]
        exact ih (a := { a with solver := u, memory := _ }) ha hu hturn.poised hlt (by omega)
          (Nat.lt_of_lt_of_le hless (Nat.le_of_lt_succ hfuel))

/-- At the end of the course a run makes one round, which does not count. -/
theorem Pause.runRounds_end {σ : Type} {a : Analysis σ} (hc : Course origin N)
    (ha : a.source = .builtin) (h : Pause base origin (N + 1) limit count a.solver)
    (hp : a.solver.Poised) (fuel rounds : Nat) :
    ∃ b, a.runRounds (fuel + 1) rounds = (b, .ok rounds) ∧
      Pause base origin (N + 1) limit count b.solver := by
  obtain ⟨hnone, hledger⟩ := hc.nextRound_end
  obtain ⟨t, u, new, hturn, hnext, hu⟩ := h.turn hc.stage hp rounds
  rw [hnone] at hnext
  cases hnext
  rw [Analysis.runRounds_of_round hturn.solve (by rw [ha]; exact hturn.connect)]
  refine ⟨_, rfl, hu.edges, hu.stage, ?_⟩
  rw [hu.ledger, hledger]

theorem Pause.start (h : Pause base origin n limit count s) :
    Pause base origin n limit count (Analysis.start s) :=
  ⟨h.edges, h.stage.start, (Analysis.frame_start s).ledger.trans h.ledger⟩

theorem Pause.finish (h : Pause base origin n limit count s) (rounds : Nat) :
    Pause base origin n limit (count + rounds) (Analysis.finish s rounds) := by
  refine ⟨h.edges, h.stage.finish rounds, ?_⟩
  rw [ledger_finish, h.ledger]
  rfl

/-- **An analysis under a limit goes on from where the rounds before have led.** -/
theorem Pause.analyze (hc : Course origin N) (hk : 0 < k)
    (h : Pause base origin (Course.halt N c) (some k) (min c N) s) :
    s.analyze.2 = .ok () ∧ s.analyze.1.Counted ∧
      Pause base origin (Course.halt N (c + k)) (some k) (min (c + k) N) s.analyze.1 := by
  have hpoised := Analysis.poised_start h.stage.minimal.coherent
  obtain ⟨b, made, hrun, hb, hcount⟩ : ∃ b made,
      Analysis.runRounds ⟨Analysis.start s, .builtin, ()⟩ ((Analysis.start s).pairBound + 1) 0 =
        (b, .ok made) ∧
      Pause base origin (Course.halt N (c + k)) (some k) (min c N) b.solver ∧
      min c N + made = min (c + k) N := by
    by_cases hcN : c ≤ N
    · rw [Course.halt, if_pos hcN] at h
      obtain ⟨b, hrun, hb⟩ := Pause.runRounds (a := ⟨Analysis.start s, .builtin, ()⟩) hc rfl h.start
        hpoised hcN hk (Nat.lt_succ_of_le (unconnected_le _))
      exact ⟨b, _, hrun, hb, by omega⟩
    · have hhalt : Course.halt N (c + k) = N + 1 := if_neg (by omega)
      rw [Course.halt, if_neg hcN] at h
      obtain ⟨b, hrun, hb⟩ := Pause.runRounds_end (a := ⟨Analysis.start s, .builtin, ()⟩) hc rfl
        h.start hpoised (Analysis.start s).pairBound 0
      rw [hhalt]
      exact ⟨b, 0, hrun, hb, by omega⟩
  rw [analyze_of_runRounds hrun, ← hcount]
  exact ⟨rfl, counted_finish _ _, hb.finish made⟩

/-- The solver after a number of analyses in a row. -/
def afterAnalyses (s : Solver) : Nat → Solver
  | 0 => s
  | m + 1 => (s.afterAnalyses m).analyze.1

/-- **Analyses in a row go along the course together.** -/
theorem Pause.afterAnalyses (hc : Course origin N) (hk : 0 < k)
    (h : Pause base origin (Course.halt N 0) (some k) (min 0 N) s) (m : Nat) :
    Pause base origin (Course.halt N (m * k)) (some k) (min (m * k) N) (s.afterAnalyses m) := by
  induction m with
  | zero => rwa [Nat.zero_mul]
  | succ m ih =>
    rw [Nat.succ_mul]
    exact (ih.analyze hc hk).2.2

/-- Counted results that stand at one place on the course agree, whatever their limits are. -/
theorem Pause.agree {limit' : Option Nat} (h : Pause base origin n limit count s)
    (h' : Pause base' origin n limit' count t) (hs : s.Solved) (ht : t.Solved) (hcs : s.Counted)
    (hct : t.Counted) : Agree s t := by
  have hedges : ∀ k x y, base.graph.hasEdge k x y = base'.graph.hasEdge k x y := fun k x y =>
    (h.edges k x y).trans (h'.edges k x y).symm
  have hledger : s.ledger = t.ledger.under limit t.ledger.rounds := by
    rw [h.ledger, h'.ledger]
    rfl
  obtain ⟨hsame, hpointsTo⟩ := h.stage.coincide h'.stage hedges hs ht hledger
  exact agree_of_counted hledger hsame hpointsTo h.stage.tallied h'.stage.tallied hcs hct

theorem steps_afterAnalyses (hs : s.Coherent) (m : Nat) :
    Steps .analysis s (s.afterAnalyses m) := by
  induction m with
  | zero => exact .refl
  | succ m ih =>
    exact ih.trans (Analysis.steps_run (a := ⟨s.afterAnalyses m, .builtin, ()⟩)
      (Licence.le_refl _) (hs.steps ih))

end Solver

open Solver

variable {p : Problem} {s s' : Solver} {N k k' m : Nat}

/-- The problem with another limit on the rounds. -/
def Problem.limited (p : Problem) (k : Nat) : Problem :=
  { p with settings := { p.settings with maxCallGraphRounds := some k } }

theorem Problem.Plain.limited (h : p.Plain) (k : Nat) : (p.limited k).Plain :=
  ⟨⟨h.made.graph, h.made.functions⟩, h.store, h.outside⟩

theorem Problem.validate_limited (p : Problem) (k : Nat) :
    (p.limited k).settings.validate = .ok () ↔ 0 < k ∧ k ≤ Settings.roundLimit := by
  unfold Problem.limited Settings.validate
  dsimp only
  split_ifs with h
  · simp only [false_iff]
    omega
  · simp only [true_iff]
    omega

/-- Whether a problem is accepted depends on its limit in this one way. -/
theorem exists_ofProblem_limited (hs : ofProblem (p.limited k) = .ok s) (hk : 0 < k')
    (hlimit : k' ≤ Settings.roundLimit) : ∃ s', ofProblem (p.limited k') = .ok s' := by
  obtain ⟨-, hnodes, -⟩ := ofProblem_eq_ok hs
  have hvalid := (p.validate_limited k').mpr ⟨hk, hlimit⟩
  have hmissing : (p.limited k').graph.missing?
      (namedNodes (sitesById (p.limited k').sites) (p.limited k').functions) = none :=
    ConstraintGraph.missing?_eq_none.mpr hnodes
  unfold ofProblem
  rw [hvalid]
  dsimp only
  rw [hmissing]
  exact ⟨_, rfl⟩

/-- Solvers of one problem under any limits stand at the beginning of one course. -/
theorem pause_ofProblem (hp : p.Plain) (hs : ofProblem (p.limited k) = .ok s)
    (hs' : ofProblem (p.limited k') = .ok s') (N : Nat) :
    Pause s' s (Course.halt N 0) (some k') (min 0 N) s' := by
  have hstage := stage_ofProblem (hp.limited k') hs'
  obtain ⟨-, -, rfl⟩ := ofProblem_eq_ok hs
  obtain ⟨-, -, rfl⟩ := ofProblem_eq_ok hs'
  refine ⟨fun _ _ _ => rfl, hstage, ?_⟩
  rw [Nat.zero_min, Course.halt, if_pos (Nat.zero_le N), afterRounds,
    (Analysis.frame_start _).ledger]
  rfl

/-- **An analysis under a limit is resumable.** Analyses in a row, each allowed `k` rounds, do not
fail, and after `m` of them the solver cannot be told apart from one that was allowed `m * k` rounds
in a single analysis, if that is a limit that settings may have. The analyses in a row and the
single one halt at the same place of one course of rounds. -/
theorem resumes_analyze (hp : p.Plain) (hs : ofProblem (p.limited k) = .ok s) (hm : 0 < m)
    (hlimit : m * k ≤ Settings.roundLimit) :
    (∀ i, (s.afterAnalyses i).analyze.2 = .ok ()) ∧
    ∃ s', ofProblem (p.limited (m * k)) = .ok s' ∧ s'.analyze.2 = .ok () ∧
      Agree (s.afterAnalyses m) s'.analyze.1 ∧
      ∀ n, (s.afterAnalyses m).pointsTo n = s'.analyze.1.pointsTo n := by
  have hk : 0 < k := ((p.validate_limited k).mp (ofProblem_eq_ok hs).1).1
  have hmk : 0 < m * k := Nat.mul_pos hm hk
  obtain ⟨s', hs'⟩ := exists_ofProblem_limited hs hmk hlimit
  have hstage := stage_ofProblem (hp.limited k) hs
  obtain ⟨N, hc⟩ := hstage.exists_course
  have hrow := (pause_ofProblem hp hs hs N).afterAnalyses hc hk
  obtain ⟨hok', hcounted', hone⟩ := (pause_ofProblem hp hs hs' N).analyze hc hmk
  rw [Nat.zero_add] at hone
  have hok : ∀ i, (s.afterAnalyses i).analyze.2 = .ok () := fun i => ((hrow i).analyze hc hk).1
  have hcoherent := hstage.minimal.coherent
  have hcoherent' := (stage_ofProblem (hp.limited _) hs').minimal.coherent
  have hsteps := steps_afterAnalyses hcoherent m
  have hsteps' : Steps .analysis s' s'.analyze.1 :=
    Analysis.steps_run (a := ⟨s', .builtin, ()⟩) (Licence.le_refl _) hcoherent'
  have hagree : Agree (s.afterAnalyses m) s'.analyze.1 := by
    obtain ⟨last, rfl⟩ := Nat.exists_eq_succ_of_ne_zero (Nat.ne_of_gt hm)
    have hlast := hcoherent.steps (steps_afterAnalyses hcoherent last)
    exact (hrow (last + 1)).agree hone
      (Analysis.solved_run (a := ⟨s.afterAnalyses last, .builtin, ()⟩) hlast (hok last))
      (Analysis.solved_run (a := ⟨s', .builtin, ()⟩) hcoherent' hok')
      ((hrow last).analyze hc hk).2.1 hcounted'
  refine ⟨hok, s', hs', hok', hagree, fun n => ?_⟩
  exact IdSet.eq_of_mem_iff ((hp.limited _).ascending hs hsteps _)
    ((hp.limited _).ascending hs' hsteps' _) (hagree.pointsTo n)

/-- The solver of the sample under a limit. -/
def sampleSolverLimited (k : Nat) : Solver :=
  { sampleSolver with settings := { maxCallGraphRounds := some k } }

/-- Two analyses of one round each do what one analysis of two rounds does. The first of them leaves
the call of the sample partially resolved. -/
theorem resumes_analyze_sample :
    Agree ((sampleSolverLimited 1).afterAnalyses 2) (sampleSolverLimited 2).analyze.1 ∧
      ((sampleSolverLimited 1).afterAnalyses 1).calls.state 0 = .partiallyResolved ∧
      (sampleSolverLimited 2).analyze.1.calls.state 0 = .stable := by
  have hplain : sampleProblem.Plain := ⟨sampleProblem_made, rfl, rfl⟩
  have hone : ofProblem (sampleProblem.limited 1) = .ok (sampleSolverLimited 1) := rfl
  have htwo : ofProblem (sampleProblem.limited (2 * 1)) = .ok (sampleSolverLimited 2) := rfl
  obtain ⟨-, s', hs', -, hagree, -⟩ := resumes_analyze (m := 2) hplain hone (by decide) (by decide)
  rw [htwo] at hs'
  cases hs'
  exact ⟨hagree, by decide +kernel, by decide +kernel⟩

end PointsTo
