import PointsTo.Proofs.Gathered
import PointsTo.Proofs.Partition.Policy
import PointsTo.Proofs.Placement

/-!
# Canonical representatives

A solver that lets the lesser representative survive merges classes in one way only: the constraints
of an analysis, those found at calls included, are all unified by the policy. So the representative
of a node is the least member of its class, in whatever order the constraints were looked at. Only a
merge by hand names its survivor and may break the rule.

## Main definitions

* `Operation.NamesNoSurvivor`: an operation leaves the choice of the survivor to the policy
* `Solver.Canonical`: the policy, and the classes that it makes

## Main results

* `Canonical.step`: a step that names no survivor keeps representatives least
* `Governed.canonical`: so does every history of such operations
* `representative_canonical`: under the policy, representatives are canonical
-/

namespace PointsTo

/-- An operation leaves the choice of the survivor to the policy. -/
def Operation.NamesNoSurvivor (op : Operation) : Prop := ∀ n m, op ≠ .hand (.mergeInto n m)

namespace Solver

variable {s t : Solver} {R : NodeId → NodeId → Prop} {a b rep : NodeId}

/-- **The lesser representative is to survive**, and no node is less than its representative. -/
structure Canonical (s : Solver) : Prop where
  policy : s.settings.representativePolicy = .lowerId
  classes : s.classes.Canonical

namespace Canonical

theorem congr (h : s.Canonical) (hsettings : t.settings = s.settings)
    (hclasses : t.classes = s.classes) : t.Canonical := by
  refine ⟨?_, ?_⟩
  · rw [hsettings]
    exact h.policy
  · rw [hclasses]
    exact h.classes

theorem unify (h : s.Canonical) (hv : s.classes.Valid) (a b : NodeId) :
    (s.unify a b).1.Canonical := by
  refine ⟨?_, ?_⟩
  · rw [(Frame.unify s a b).settings]
    exact h.policy
  · have hunion := h.classes.union hv a b
    rw [← h.policy] at hunion
    by_cases hab : s.classes.find a = s.classes.find b
    · rw [Solver.unify, Partition.union_of_find_eq hab]
      exact h.classes
    · obtain ⟨lost, survivor, -, heq⟩ := Partition.union_of_ne hab s.settings.representativePolicy
      rw [heq] at hunion
      have hjoin : (s.unify a b).1 = ((s.join lost survivor).enqueue survivor).1 := by
        rw [Solver.unify, heq]
        rfl
      rw [hjoin, join_eq]
      exact hunion

theorem joins {held : ClassEdges} (h : s.Canonical) (hv : s.ValidBut held) (hst : Joins R s t) :
    t.Canonical := by
  induction hst with
  | refl => exact h
  | @tail t counters a b hj _ _ ih =>
    have hcounted : { t with counters }.Canonical := ih.congr rfl rfl
    exact hcounted.unify (hj.validBut hv).classes a b

theorem treat (h : s.Canonical) (hv : s.Valid) (hrep : s.representative rep = rep) :
    (s.treat rep).1.Canonical := by
  obtain ⟨edges, loaded, held, hheld, hjoins⟩ := joins_treat hv hrep
  have hloaded : { s with edges, loaded }.Canonical := h.congr rfl rfl
  exact hloaded.joins hheld hjoins

theorem hand (h : s.Canonical) (hv : s.classes.Valid) {op : Hand}
    (hop : (Operation.hand op).NamesNoSurvivor) : (op.apply s).Canonical := by
  cases op with
  | mergeInto n m => exact absurd rfl (hop n m)
  | unify a b => exact h.unify hv a b
  | subsume n sub => exact ⟨h.policy, h.classes⟩
  | dequeue =>
    obtain ⟨w, heq⟩ := Hand.apply_dequeue s
    rw [heq]
    exact h.congr rfl rfl
  | addObject _ _ | addObjects _ _ | addObjectsOf _ _ | enqueue _ => exact h.congr rfl rfl

/-- **A step that names no survivor keeps representatives least.** -/
theorem step (h : s.Canonical) (hv : s.Valid)
    (hst : Step (.following fun _ op => op.NamesNoSurvivor) s t) : t.Canonical := by
  cases hst with
  | hand op hop => exact h.hand hv.classes hop
  | treat hrep => exact h.treat hv hrep
  | pop hd =>
    obtain ⟨_, _, -, -, rfl⟩ := dequeue?_cases hd
    exact h.congr rfl rfl
  | wiring hw _ _ => exact h.congr hw.frame.settings hw.frame.classes
  | note _ | address _ _ _ | seeded _ | wait _ | callee _ _ _ | record _ => exact h.congr rfl rfl

end Canonical

end Solver

open Solver PointsTo.Partition

variable {p : Problem} {s : Solver}

theorem canonical_ofProblem (hpolicy : p.settings.representativePolicy = .lowerId)
    (h : ofProblem p = .ok s) : s.Canonical := by
  obtain ⟨-, -, rfl⟩ := ofProblem_eq_ok h
  exact ⟨hpolicy, canonical_empty⟩

/-- **After every history that names no survivor representatives are least.** -/
theorem Governed.canonical (hp : p.Made) (hpolicy : p.settings.representativePolicy = .lowerId)
    (h : Governed (fun _ op => op.NamesNoSurvivor) p s) : s.Canonical :=
  h.keeps hp (Licence.analysis_le_following _) Operation.licensed_following
    (canonical_ofProblem hpolicy) fun hs hstep hcanonical => hcanonical.step hs.valid hstep

/-- **Representatives are canonical when the lesser one survives.** After merging any pairs, a node
is represented by the least member of its class; so pairs that connect the same nodes give the same
representatives, and after an analysis the representative of a node is the first member of its
class. -/
theorem representative_canonical :
    (∀ pairs x,
      IsLeast {y | (run (unions .lowerId pairs)).find y = (run (unions .lowerId pairs)).find x}
        ((run (unions .lowerId pairs)).find x) ∧
      ((run (unions .lowerId pairs)).classMembers x).first? =
        some ((run (unions .lowerId pairs)).find x)) ∧
    (∀ pairs pairs' : List (NodeId × NodeId),
      (∀ x y, Relation.EqvGen (fun a b => (a, b) ∈ pairs) x y ↔
        Relation.EqvGen (fun a b => (a, b) ∈ pairs') x y) →
      (run (unions .lowerId pairs)).find = (run (unions .lowerId pairs')).find) ∧
    ∀ {p : Problem} {s : Solver}, p.Made → p.settings.representativePolicy = .lowerId →
      ofProblem p = .ok s → ∀ {σ : Type} (a : Analysis σ), a.solver = s → a.run.2 = .ok () →
        ∀ n, (a.run.1.solver.classMembers n).first? = some (a.run.1.solver.representative n) := by
  refine ⟨fun pairs x => ?_, fun pairs pairs' heqv => ?_, ?_⟩
  · have hflat := flat_run (unions .lowerId pairs)
    have hcanonical := canonical_run pairs
    exact ⟨hcanonical.isLeast_find hflat.toValid x, hcanonical.first?_classMembers hflat x⟩
  · refine (canonical_run pairs).find_congr (canonical_run pairs') (flat_run _).toValid
      (flat_run _).toValid fun x y => ?_
    rw [find_eq_iff_unions, find_eq_iff_unions]
    exact heqv x y
  · rintro p s hp hpolicy hs σ a rfl - n
    have hrun : Governed (fun _ op => op.NamesNoSurvivor) p a.run.1.solver :=
      .apply (.analyze a.source a.memory) (.start hs) fun _ _ heq => by cases heq
    have hflat := (hrun.reachable.gathered hp ClassEdges.Part.lasts_loads).classes
    exact (hrun.canonical hp hpolicy).classes.first?_classMembers hflat n

/-- The sample, with the lesser representative to survive. -/
def loweredProblem : Problem :=
  { sampleProblem with settings := { representativePolicy := .lowerId } }

/-- The solver of that sample before the analysis. -/
def loweredSolver : Solver := { sampleSolver with settings := { representativePolicy := .lowerId } }

/-- Pairs in two orders give the same representatives, and in the sample the argument 5 is
represented by the parameter 2 that it flows into. -/
theorem representative_canonical_sample :
    (run (unions .lowerId [(1, 2), (1, 3)])).find = (run (unions .lowerId [(1, 3), (1, 2)])).find ∧
    (Analysis.run ⟨loweredSolver, .builtin, ()⟩).1.solver.representative 5 = 2 ∧
    ((Analysis.run ⟨loweredSolver, .builtin, ()⟩).1.solver.classMembers 5).first? =
      some ((Analysis.run ⟨loweredSolver, .builtin, ()⟩).1.solver.representative 5) := by
  have hmade : loweredProblem.Made := ⟨sampleProblem_made.graph, sampleProblem_made.functions⟩
  have hok : (Analysis.run ⟨loweredSolver, .builtin, ()⟩).2 = .ok () := by decide +kernel
  have hpairs : (fun a b : NodeId => (a, b) ∈ [(1, 2), (1, 3)]) =
      fun a b => (a, b) ∈ [(1, 3), (1, 2)] := by
    funext a b
    simp [or_comm]
  refine ⟨representative_canonical.2.1 _ _ fun x y => ?_, by decide +kernel,
    representative_canonical.2.2 hmade rfl rfl _ rfl hok 5⟩
  rw [hpairs]

end PointsTo
