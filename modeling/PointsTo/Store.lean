import PointsTo.Id
import PointsTo.IdSet
import Std.Data.ExtTreeMap

/-!
# The points-to store

The store assigns a set of objects to each node, and the empty set to every node that it does not
list. It knows nothing of classes: its users ask it about representatives.

## Main definitions

* `Store`: the table from nodes to sets
* `Store.get`: the set of a node
* `Store.insert`, `Store.union`, `Store.unionFrom`: growing one set, and whether it grew
* `Store.take`: moving a set out of the store

## Main results

* `get_insert`, `get_union`, `get_unionFrom`, `get_take`: what each operation does to every set
-/

namespace PointsTo

/-- A table of points-to sets; a node that is not listed has the empty set. -/
structure Store where
  /-- The sets by node. -/
  sets : Std.ExtTreeMap NodeId IdSet := ∅

namespace Store

/-- The store in which every set is empty. -/
def empty : Store := {}

instance : EmptyCollection Store := ⟨empty⟩

/-- **The set of a node.** -/
def get (s : Store) (n : NodeId) : IdSet := s.sets.getD n ∅

/-- Adds the object `o` to the set of `n`; tells whether it was absent. -/
def insert (s : Store) (n o : NodeId) : Store × Bool :=
  (⟨s.sets.insert n ((s.get n).add o).1⟩, ((s.get n).add o).2)

/-- Adds all of `t` to the set of `n`; tells whether the set grew. -/
def union (s : Store) (n : NodeId) (t : IdSet) : Store × Bool :=
  if t.isEmpty then (s, false)
  else (⟨s.sets.insert n ((s.get n).absorb t).1⟩, ((s.get n).absorb t).2)

/-- Adds the set of `m` to the set of `n`; tells whether the set grew. -/
def unionFrom (s : Store) (n m : NodeId) : Store × Bool :=
  if n = m then (s, false) else s.union n (s.get m)

/-- Empties the set of `n` and hands it out. -/
def take (s : Store) (n : NodeId) : IdSet × Store := (s.get n, ⟨s.sets.erase n⟩)

/-- The nodes whose set is not empty, in ascending order. -/
def keys (s : Store) : List NodeId :=
  (s.sets.toList.filter fun entry => !entry.2.isEmpty).map Prod.fst

/-- The number of nodes listed. -/
def size (s : Store) : Nat := s.sets.size

/-- Whether no node is listed. -/
def isEmpty (s : Store) : Bool := s.sets.isEmpty

/-! ## Sets after each operation -/

@[simp] theorem get_empty (n : NodeId) : (∅ : Store).get n = ∅ :=
  Std.ExtTreeMap.getD_empty

@[simp] theorem get_insert (s : Store) (n o m : NodeId) :
    (s.insert n o).1.get m = if m = n then (s.get n).insert o else s.get m := by
  simp only [get, insert, IdSet.add_fst, Std.ExtTreeMap.getD_insert,
    Std.LawfulEqCmp.compare_eq_iff_eq]
  grind

theorem get_union (s : Store) (n m : NodeId) (t : IdSet) :
    (s.union n t).1.get m = if m = n ∧ ¬ t.isEmpty then s.get n ∪ t else s.get m := by
  unfold union
  split <;>
    simp_all only [get, IdSet.absorb_fst, Std.ExtTreeMap.getD_insert,
      Std.LawfulEqCmp.compare_eq_iff_eq] <;>
    grind

theorem get_unionFrom (s : Store) (n m k : NodeId) :
    (s.unionFrom n m).1.get k =
      if k = n ∧ n ≠ m ∧ ¬ (s.get m).isEmpty then s.get n ∪ s.get m else s.get k := by
  unfold unionFrom
  split
  · grind
  · rw [get_union]; grind

@[simp] theorem get_take (s : Store) (n m : NodeId) :
    (s.take n).2.get m = if m = n then ∅ else s.get m := by
  simp only [get, take, Std.ExtTreeMap.getD_erase, Std.LawfulEqCmp.compare_eq_iff_eq]
  grind

@[simp] theorem take_fst (s : Store) (n : NodeId) : (s.take n).1 = s.get n := rfl

end Store

end PointsTo
