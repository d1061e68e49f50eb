import PointsTo.Proofs.Closure

/-!
# Sharing of points-to sets

The nodes of a class share one set, which moves with the class and is never cut. Whatever is done to
the solver, nodes that share a class go on sharing it and every object stays in the sets that hold
it. A merge does no more than it has to: the merged class holds the objects of its two parts, and
no other class notices.

## Main definitions

* `Solver.Merged`: the second state is the first one with the classes of two nodes merged

## Main results

* `Merged.join`: joining two classes merges them and nothing else
* `sharing_of_reachable`: nothing is lost, and both ways to merge do exactly that
-/

namespace PointsTo

namespace Solver

variable {s t : Solver} {a b lost survivor x y : NodeId}

/-- **The classes of two nodes were merged, and nothing else happened** to classes and sets. -/
structure Merged (s : Solver) (a b : NodeId) (t : Solver) : Prop where
  /-- Nodes share a class if they did before, or if each was with one of the two nodes. -/
  same : ∀ x y, t.Same x y ↔
    s.Same x y ∨ (s.Same x a ∧ s.Same b y) ∨ (s.Same x b ∧ s.Same a y)
  /-- The merged class holds the objects of its two parts. -/
  pointsTo : ∀ x, s.Same x a ∨ s.Same x b →
    ∀ o, o ∈ t.pointsTo x ↔ o ∈ s.pointsTo a ∨ o ∈ s.pointsTo b
  /-- Every other class keeps its representative, its members and its set. -/
  others : ∀ x, ¬ s.Same x a → ¬ s.Same x b →
    t.representative x = s.representative x ∧ t.classMembers x = s.classMembers x ∧
      t.pointsTo x = s.pointsTo x

theorem pointsTo_congr (h : s.Same x y) : s.pointsTo x = s.pointsTo y :=
  congrArg s.store.get h

/-- A set that does not take part in a move stays as it is. -/
theorem get_moveSet_of_ne (s : Solver) {r : NodeId} (hlost : r ≠ lost) (hsurvivor : r ≠ survivor) :
    (s.moveSet lost survivor).store.get r = s.store.get r := by
  change ((s.store.take lost).2.union survivor (s.store.get lost)).1.get r = _
  rw [Store.get_union, if_neg fun h => hsurvivor h.1, Store.get_take, if_neg hlost]

namespace Merged

/-- Two nodes that share a class are merged already. -/
theorem of_same (h : s.Same a b) : s.Merged a b s where
  same x y := by
    constructor
    · exact Or.inl
    · rintro (hxy | ⟨hx, hy⟩ | ⟨hx, hy⟩)
      · exact hxy
      · exact (hx.trans h).trans hy
      · exact (hx.trans h.symm).trans hy
  pointsTo x hx o := by
    rw [← pointsTo_congr h, or_self]
    rcases hx with hx | hx
    · rw [pointsTo_congr hx]
    · rw [pointsTo_congr (hx.trans h.symm)]
  others _ _ _ := ⟨rfl, rfl, rfl⟩

/-- After a merge the survivor represents the nodes of both classes, and holds both sets. -/
theorem pointsTo_join (hv : s.classes.Valid) (hj : s.Joinable a b lost survivor)
    (hx : s.Same x a ∨ s.Same x b) (o : NodeId) :
    o ∈ (s.join lost survivor).pointsTo x ↔ o ∈ s.pointsTo a ∨ o ∈ s.pointsTo b := by
  have hrep : (s.join lost survivor).representative x = survivor := by
    rw [representative_join hv (hj.lost_eq hv)]
    unfold Same at hx
    rcases hj.pair with ⟨rfl, rfl⟩ | ⟨rfl, rfl⟩ <;> grind
  rw [mem_pointsTo, hrep, mem_get_join s hj.ne, if_pos rfl, mem_pointsTo, mem_pointsTo]
  rcases hj.pair with ⟨rfl, rfl⟩ | ⟨rfl, rfl⟩
  · exact or_comm
  · exact Iff.rfl

theorem others_join (hv : s.classes.Valid) (hj : s.Joinable a b lost survivor)
    (hxa : ¬ s.Same x a) (hxb : ¬ s.Same x b) :
    (s.join lost survivor).representative x = s.representative x ∧
      (s.join lost survivor).classMembers x = s.classMembers x ∧
      (s.join lost survivor).pointsTo x = s.pointsTo x := by
  have hne : s.representative x ≠ lost ∧ s.representative x ≠ survivor := by
    rcases hj.pair with ⟨rfl, rfl⟩ | ⟨rfl, rfl⟩
    · exact ⟨hxa, hxb⟩
    · exact ⟨hxb, hxa⟩
  have hrep : (s.join lost survivor).representative x = s.representative x := by
    rw [representative_join hv (hj.lost_eq hv), if_neg hne.1]
  refine ⟨hrep, ?_, ?_⟩
  · rw [join_eq]
    exact Partition.classMembers_absorb_of_ne hv (hj.lost_eq hv) hne.1 hne.2
  · rw [Solver.pointsTo, hrep, join_eq]
    exact get_moveSet_of_ne s hne.1 hne.2

/-- **Joining two classes merges them and nothing else.** -/
theorem join (hv : s.classes.Valid) (hj : s.Joinable a b lost survivor) :
    s.Merged a b (s.join lost survivor) where
  same x y := by
    have hlost := hj.lost_eq hv
    refine ⟨hj.same_cases hv, ?_⟩
    rintro (hxy | ⟨hx, hy⟩ | ⟨hx, hy⟩)
    · exact hxy.join hv hlost survivor
    · exact ((hx.join hv hlost survivor).trans (hj.same hv)).trans (hy.join hv hlost survivor)
    · exact ((hx.join hv hlost survivor).trans (hj.same hv).symm).trans (hy.join hv hlost survivor)
  pointsTo _ := pointsTo_join hv hj
  others _ := others_join hv hj

/-- What waits is no matter of classes and sets. -/
theorem enqueue (h : s.Merged a b t) (n : NodeId) : s.Merged a b (t.enqueue n).1 :=
  ⟨h.same, h.pointsTo, h.others⟩

theorem mergeInto (hv : s.classes.Valid) (a b : NodeId) : s.Merged a b (s.mergeInto a b).1 := by
  rcases s.mergeInto_cases a b with ⟨hab, heq⟩ | ⟨hj, heq⟩
  · rw [heq]
    exact of_same hab
  · rw [heq]
    exact join hv hj

theorem unify (hv : s.classes.Valid) (a b : NodeId) : s.Merged a b (s.unify a b).1 := by
  rcases s.unify_cases a b with ⟨hab, heq⟩ | ⟨lost, survivor, hj, heq⟩
  · rw [heq]
    exact of_same hab
  · rw [heq]
    exact (join hv hj).enqueue survivor

end Merged

end Solver

open Solver

variable {p : Problem} {s : Solver}

/-- **Nothing is lost, and merges are exact.** Whatever operation is applied to a state that any
history led to, nodes that shared a class share it afterwards together with its set, and every
object stays where it was; a merge, with a given survivor or by the policy, joins the two classes
and their sets and leaves all others alone. -/
theorem sharing_of_reachable (hp : p.Made) (hs : Reachable .any p s) :
    (∀ op : Operation, ∀ x y o : NodeId,
      (s.representative x = s.representative y →
        (op.apply s).representative x = (op.apply s).representative y ∧
          (op.apply s).pointsTo x = (op.apply s).pointsTo y) ∧
      (o ∈ s.pointsTo x → o ∈ (op.apply s).pointsTo x)) ∧
    ∀ a b : NodeId, s.Merged a b (s.mergeInto a b).1 ∧ s.Merged a b (s.unify a b).1 := by
  have hcoherent := hs.coherent hp
  refine ⟨fun op x y o => ?_, fun a b => ?_⟩
  · have hsteps : Steps (.within .any) s (op.apply s) := op.steps hcoherent fun _ _ => trivial
    have hgrows := hsteps.grows hcoherent
    refine ⟨fun hxy => ?_, hgrows.pointsTo⟩
    have hsame : (op.apply s).Same x y := hgrows.same hxy
    exact ⟨hsame, pointsTo_congr hsame⟩
  · exact ⟨.mergeInto hcoherent.valid.classes a b, .unify hcoherent.valid.classes a b⟩

/-- In the sample the nodes 5 and 2 were merged by hand; treating what waits keeps them together. -/
theorem sharing_sampleHistory :
    sampleHistory.representative 5 = sampleHistory.representative 2 ∧
      (Operation.solve.apply sampleHistory).pointsTo 5 =
        (Operation.solve.apply sampleHistory).pointsTo 2 ∧
      sampleHistory.Merged 5 9 (sampleHistory.unify 5 9).1 := by
  have hsame : sampleHistory.representative 5 = sampleHistory.representative 2 := by decide +kernel
  obtain ⟨hop, hmerged⟩ := sharing_of_reachable sampleProblem_made reachable_sampleHistory
  exact ⟨hsame, ((hop .solve 5 2 0).1 hsame).2, (hmerged 5 9).2⟩

end PointsTo
