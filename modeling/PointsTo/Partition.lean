import PointsTo.Id
import PointsTo.IdSet
import Std.Data.ExtTreeMap

/-!
# Partitions of the nodes into classes

A partition is kept flat: each node that was merged away is listed with its representative, every
other node represents itself, so the class of a node is one look-up away. Merging two classes makes
one of the two representatives the survivor and lists every member of the other class under it;
merges are never undone.

Beside its class a node carries an annotation, the set of nodes that it subsumes. It holds the node
itself, every node recorded by `subsume`, and, for a survivor, the representatives it absorbed
together with what was recorded under them. Annotations never move a node from class to class.

## Main definitions

* `Partition`: the table of representatives, the members by representative, the annotations
* `Partition.find`: the representative of a node
* `Partition.mergeInto`: one class absorbs another
* `Partition.union`: a merge whose survivor is chosen by a `SurvivorPolicy`
* `Partition.classMembers`, `Partition.classSize`, `Partition.countClasses`: reading the classes

## Main results

* `find_empty`: every node starts as its own class
* `union_of_find_eq`: merging a class with itself changes nothing
-/

namespace PointsTo

/-- Which of two classes survives a merge. -/
inductive SurvivorPolicy where
  /-- The class of the second node, into which the first one flows. -/
  | copyTarget
  /-- The class with the lesser representative. -/
  | lowerId
  /-- The class with more members; the second one of two equal ones. -/
  | largerClass
deriving DecidableEq, Repr, Inhabited

/-- The outcome of merging two classes. -/
structure Merge where
  /-- The representative afterwards. -/
  survivor : NodeId
  /-- The representative that was merged away; none when the two classes were one already. -/
  absorbed : Option NodeId
deriving DecidableEq, Repr

/-- Whether the merge joined two different classes. -/
def Merge.changed (m : Merge) : Bool := m.absorbed.isSome

/-- A partition of all nodes into classes, each with a representative. -/
structure Partition where
  /-- The representative of each node that was merged away. -/
  representatives : Std.ExtTreeMap NodeId NodeId := ∅
  /-- The members of each class of two nodes or more, by representative. -/
  members : Std.ExtTreeMap NodeId (List NodeId) := ∅
  /-- The annotations. -/
  annotations : Std.ExtTreeMap NodeId IdSet := ∅
  /-- The number of merges of two different classes. -/
  mergeCount : Nat := 0

namespace Partition

/-- The partition in which every node is alone in its class. -/
def empty : Partition := {}

instance : EmptyCollection Partition := ⟨empty⟩

/-- **The representative of a node.** -/
def find (p : Partition) (n : NodeId) : NodeId := p.representatives.getD n n

/-- Whether the node represents its class. -/
def isRepresentative (p : Partition) (n : NodeId) : Bool := !p.representatives.contains n

/-- The class of a representative, in the order in which its members joined. -/
def classOf (p : Partition) (rep : NodeId) : List NodeId := p.members.getD rep [rep]

/-- The members of the class of `n`. -/
def classMembers (p : Partition) (n : NodeId) : IdSet := IdSet.ofList (p.classOf (p.find n))

/-- The number of members of the class of `n`. -/
def classSize (p : Partition) (n : NodeId) : Nat := (p.classOf (p.find n)).length

/-- The number of nodes that were merged away. -/
def mergedNodeCount (p : Partition) : Nat := p.representatives.size

/-- The nodes that were merged away, each with its representative, in ascending order. -/
def mappings (p : Partition) : List (NodeId × NodeId) := p.representatives.toList

/-- The representatives of the given nodes. -/
def representativesOf (p : Partition) (nodes : List NodeId) : IdSet :=
  IdSet.ofList (nodes.map p.find)

/-- The number of classes that the given nodes meet. -/
def countClasses (p : Partition) (nodes : List NodeId) : Nat := (p.representativesOf nodes).size

/-! ## Annotations -/

/-- The annotation of `n`: the node itself and what was recorded under it. -/
def subsumed (p : Partition) (n : NodeId) : IdSet := (p.annotations.getD n ∅).insert n

/-- Records `sub` under `n`; no class changes. -/
def subsume (p : Partition) (n sub : NodeId) : Partition :=
  { p with annotations := p.annotations.insert n ((p.subsumed n).insert sub) }

/-! ## Merging -/

/-- The nodes that get another representative when that of their class, `lost`, is merged away. -/
def moved (p : Partition) (lost : NodeId) : List NodeId := p.classOf lost

/-- Lists every member of the class of `lost` under `survivor`; both are representatives, and
different ones. -/
def absorb (p : Partition) (lost survivor : NodeId) : Partition :=
  { representatives :=
      (p.moved lost).foldl (fun table n => table.insert n survivor) p.representatives
    members := (p.members.erase lost).insert survivor (p.classOf survivor ++ p.moved lost)
    annotations := (p.annotations.erase lost).insert survivor
      ((p.subsumed survivor).insert lost ∪ p.annotations.getD lost ∅)
    mergeCount := p.mergeCount + 1 }

/-- **Merges the class of `n` into the class of `m`**, whose representative survives. -/
def mergeInto (p : Partition) (n m : NodeId) : Partition × Merge :=
  let lost := p.find n
  let survivor := p.find m
  if lost = survivor then (p, ⟨survivor, none⟩)
  else (p.absorb lost survivor, ⟨survivor, some lost⟩)

/-- Whether the policy keeps `b` when `a` and `b` represent the two classes. -/
def keepsSecond (p : Partition) (policy : SurvivorPolicy) (a b : NodeId) : Bool :=
  match policy with
  | .copyTarget => true
  | .lowerId => b < a
  | .largerClass => p.classSize a ≤ p.classSize b

/-- **Merges the classes of `a` and `b`**; the policy chooses the survivor. -/
def union (p : Partition) (a b : NodeId) (policy : SurvivorPolicy) : Partition × Merge :=
  if p.keepsSecond policy (p.find a) (p.find b) then p.mergeInto a b else p.mergeInto b a

/-! ## First facts -/

@[simp] theorem find_empty (n : NodeId) : (∅ : Partition).find n = n :=
  Std.ExtTreeMap.getD_empty

@[simp] theorem classOf_empty (n : NodeId) : (∅ : Partition).classOf n = [n] :=
  Std.ExtTreeMap.getD_empty

@[simp] theorem find_subsume (p : Partition) (n sub m : NodeId) :
    (p.subsume n sub).find m = p.find m := rfl

@[simp] theorem classOf_subsume (p : Partition) (n sub m : NodeId) :
    (p.subsume n sub).classOf m = p.classOf m := rfl

/-- Merging a class with itself changes nothing. -/
theorem union_of_find_eq {p : Partition} {a b : NodeId} (h : p.find a = p.find b)
    (policy : SurvivorPolicy) : p.union a b policy = (p, ⟨p.find a, none⟩) := by
  unfold union
  split <;> simp [mergeInto, h]

/-- A merge of two different classes keeps one of the two representatives. -/
theorem union_of_find_ne {p : Partition} {a b : NodeId} (h : p.find a ≠ p.find b)
    (policy : SurvivorPolicy) :
    p.union a b policy =
      if p.keepsSecond policy (p.find a) (p.find b) then
        (p.absorb (p.find a) (p.find b), ⟨p.find b, some (p.find a)⟩)
      else (p.absorb (p.find b) (p.find a), ⟨p.find a, some (p.find b)⟩) := by
  simp [union, mergeInto, h, h.symm]

end Partition

end PointsTo
