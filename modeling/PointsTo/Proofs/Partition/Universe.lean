import PointsTo.Proofs.Partition.Run

/-!
# Universes of nodes

A universe is a list of nodes, in which nodes may repeat and which may cut the classes in any way.
A merge relabels precisely one class, so a universe that meets both of the two classes merged meets
one class fewer afterwards, and a universe that misses one of them cannot tell that they were
merged. Once two classes are one, merging them again changes nothing, in either order and whichever
way they are merged.

## Main definitions

* `Meets`: the universe has a node of the class
* `Lowers`: what a merge does to the number of classes that a universe meets, and what is left to
  merge after it

## Main results

* `Merging.lowers`: every merge of a valid partition does that
* `lowers_merge`: so does every merge after any run
-/

namespace PointsTo.Partition

variable {p q : Partition} {m : Merge} {nodes : List NodeId} {a b : NodeId}

/-- The universe has a node of the class of `a`. -/
def Meets (p : Partition) (nodes : List NodeId) (a : NodeId) : Prop :=
  ∃ n ∈ nodes, p.find n = p.find a

/-- **Merging the two nodes changes nothing**: the partition stays as it is, and the report names
the survivor alone. -/
def Merged (p : Partition) (survivor a b : NodeId) : Prop :=
  p.mergeInto a b = (p, ⟨survivor, none⟩) ∧ ∀ policy, p.union a b policy = (p, ⟨survivor, none⟩)

/-- **What merging the classes of `a` and `b` does to every universe**, and that it leaves nothing
to merge. -/
structure Lowers (p : Partition) (a b : NodeId) (result : Partition × Merge) : Prop where
  /-- A universe that meets both of two different classes meets one class fewer. -/
  fewer : ∀ {nodes}, p.find a ≠ p.find b → p.Meets nodes a → p.Meets nodes b →
    result.1.countClasses nodes + 1 = p.countClasses nodes
  /-- Any other universe meets as many as before. -/
  kept : ∀ {nodes}, ¬ (p.find a ≠ p.find b ∧ p.Meets nodes a ∧ p.Meets nodes b) →
    result.1.countClasses nodes = p.countClasses nodes
  /-- Merging the two again changes nothing. -/
  again : result.1.Merged result.2.survivor a b
  /-- Nor does merging them the other way round. -/
  swapped : result.1.Merged result.2.survivor b a

/-! ## The classes that a universe meets -/

theorem Merging.countClasses_add_one (h : Merging p a b q m) (hp : p.Valid)
    (hne : p.find a ≠ p.find b) (ha : p.Meets nodes a) (hb : p.Meets nodes b) :
    q.countClasses nodes + 1 = p.countClasses nodes := by
  obtain ⟨x, hx, hxa⟩ := ha
  obtain ⟨y, hy, hyb⟩ := hb
  rcases h with ⟨heq, -, -⟩ | ⟨lost, survivor, hls, ⟨rfl, rfl⟩ | ⟨rfl, rfl⟩, rfl, -⟩
  · exact absurd heq hne
  · exact countClasses_absorb hp (hp.find_find a) hls hx hy hxa hyb
  · exact countClasses_absorb hp (hp.find_find b) hls hy hx hyb hxa

/-- A universe that misses one of the two classes is split as before. -/
theorem Merging.countClasses_eq (h : Merging p a b q m) (hp : p.Valid)
    (hmiss : ¬ (p.find a ≠ p.find b ∧ p.Meets nodes a ∧ p.Meets nodes b)) :
    q.countClasses nodes = p.countClasses nodes := by
  have hsame : ∀ {x y}, x ∈ nodes → y ∈ nodes → p.find x = p.find a → p.find y = p.find b →
      p.find a = p.find b := by
    intro x y hx hy hxa hyb
    by_contra hne
    exact hmiss ⟨hne, ⟨x, hx, hxa⟩, ⟨y, hy, hyb⟩⟩
  refine countClasses_congr_of_mem nodes ?_
  intro x hx y hy
  rw [h.find_eq_iff hp]
  constructor
  · rintro (heq | ⟨hxa, hyb⟩ | ⟨hxb, hya⟩)
    · exact heq
    · rw [hxa, hyb, hsame hx hy hxa hyb]
    · rw [hxb, hya, hsame hy hx hya hxb]
  · exact Or.inl

/-! ## Nothing left to merge -/

theorem merged_of_find_eq {survivor : NodeId} (ha : p.find a = survivor)
    (hb : p.find b = survivor) : p.Merged survivor a b := by
  have heq : p.find a = p.find b := ha.trans hb.symm
  constructor
  · rw [mergeInto, if_pos heq, hb]
  · intro policy
    rw [union_of_find_eq heq, ha]

/-- **A merge lowers the count of the universes that meet both classes**, keeps that of all others,
and leaves nothing to merge. -/
theorem Merging.lowers (h : Merging p a b q m) (hp : p.Valid) : Lowers p a b (q, m) := by
  obtain ⟨hsa, hsb⟩ := (h.reports hp).survivor
  exact ⟨h.countClasses_add_one hp, h.countClasses_eq hp, merged_of_find_eq hsa hsb,
    merged_of_find_eq hsb hsa⟩

/-- **Every merge lowers the number of classes of a universe by one or not at all.** After any
operations, whichever two nodes are merged, and whoever survives, a universe meets one class fewer
exactly when the classes of the two nodes were different and it meets both. A second merge of the
two nodes, in either order and in whichever way, changes nothing. -/
theorem lowers_merge (ops : List Operation) (a b : NodeId) :
    Lowers (run ops) a b ((run ops).mergeInto a b) ∧
      ∀ policy, Lowers (run ops) a b ((run ops).union a b policy) := by
  have hvalid := (flat_run ops).toValid
  exact ⟨(merging_mergeInto (run ops) a b).lowers hvalid,
    fun policy => (merging_union (run ops) a b policy).lowers hvalid⟩

/-- Node 0 stands for the class of 1, however often it is listed; a universe without a node of the
class of 3 keeps its count. -/
example :
    (run [.mergeInto 0 1]).countClasses [0, 0, 3, 7] = 3 ∧
      ((run [.mergeInto 0 1]).mergeInto 1 3).1.countClasses [0, 0, 3, 7] = 2 ∧
      ((run [.mergeInto 0 1]).mergeInto 1 3).1.countClasses [0, 7, 0] = 2 := by
  decide

end PointsTo.Partition
