import PointsTo.Id
import Std.Data.ExtTreeSet

/-!
# The worklist

A queue of pending nodes in which no node stands twice. The order, fixed when the worklist is made,
says which end is taken: the oldest pending node or the newest.

## Main definitions

* `Worklist`: the queue with its index of pending nodes
* `Worklist.toList`: the pending nodes, oldest first
* `Worklist.push`, `Worklist.pop?`: adding a node, taking the next one

## Main results

* `toList_push`, `toList_of_pop?`: what the two operations do to the list of pending nodes
-/

namespace PointsTo

/-- Which pending node is taken next. -/
inductive WorklistOrder where
  /-- The oldest one. -/
  | fifo
  /-- The newest one. -/
  | lifo
deriving DecidableEq, Repr, Inhabited

/-- Pending nodes, none of them twice. The queue is a list of old nodes, oldest first, and a list of
new nodes, newest first. -/
structure Worklist where
  /-- Which end is taken. -/
  order : WorklistOrder := .fifo
  /-- Old nodes, oldest first. -/
  old : List NodeId := []
  /-- New nodes, newest first. -/
  new : List NodeId := []
  /-- The pending nodes. -/
  queued : Std.ExtTreeSet NodeId := ∅

namespace Worklist

/-- The worklist without pending nodes. -/
def empty (order : WorklistOrder) : Worklist := { order }

/-- **The pending nodes**, oldest first. -/
def toList (w : Worklist) : List NodeId := w.old ++ w.new.reverse

/-- The number of pending nodes. -/
def size (w : Worklist) : Nat := w.old.length + w.new.length

/-- Whether no node is pending. -/
def isEmpty (w : Worklist) : Bool := w.old.isEmpty && w.new.isEmpty

/-- Whether the node is pending. -/
def contains (w : Worklist) (n : NodeId) : Bool := w.queued.contains n

/-- Makes `n` pending; tells whether it was not pending before. -/
def push (w : Worklist) (n : NodeId) : Worklist × Bool :=
  if w.contains n then (w, false)
  else ({ w with new := n :: w.new, queued := w.queued.insert n }, true)

/-- Takes the next node, if any is pending. -/
def pop? (w : Worklist) : Option (NodeId × Worklist) :=
  match w.order, w.old, w.new with
  | .fifo, n :: old, new => some (n, { w with old, new, queued := w.queued.erase n })
  | .fifo, [], new =>
    match new.reverse with
    | [] => none
    | n :: old => some (n, { w with old, new := [], queued := w.queued.erase n })
  | .lifo, old, n :: new => some (n, { w with old, new, queued := w.queued.erase n })
  | .lifo, old, [] =>
    match old.reverse with
    | [] => none
    | n :: new => some (n, { w with old := [], new, queued := w.queued.erase n })

/-- Drops every pending node. -/
def clear (w : Worklist) : Worklist := empty w.order

/-- Takes nodes until none is pending, in the order in which they were taken. -/
def drain (w : Worklist) : List NodeId × Worklist :=
  match w.order with
  | .fifo => (w.toList, w.clear)
  | .lifo => (w.toList.reverse, w.clear)

/-! ## The list of pending nodes -/

@[simp] theorem toList_empty (order : WorklistOrder) : (empty order).toList = [] := rfl

@[simp] theorem length_toList (w : Worklist) : w.toList.length = w.size := by simp [toList, size]

theorem toList_push (w : Worklist) (n : NodeId) :
    (w.push n).1.toList = if w.contains n then w.toList else w.toList ++ [n] := by
  unfold push
  split <;> simp [toList]

@[simp] theorem push_snd (w : Worklist) (n : NodeId) : (w.push n).2 = !w.contains n := by
  unfold push
  split <;> simp_all

/-- The node taken is the first pending one of a first-in queue and the last one otherwise; the
others stay as they are. -/
theorem toList_of_pop? {w w' : Worklist} {n : NodeId} (h : w.pop? = some (n, w')) :
    w'.order = w.order ∧
      match w.order with
      | .fifo => w.toList = n :: w'.toList
      | .lifo => w.toList = w'.toList ++ [n] := by
  obtain ⟨order, old, new, queued⟩ := w
  cases order with
  | fifo =>
    cases old with
    | cons m old => simp [pop?] at h; grind [toList]
    | nil =>
      simp only [pop?] at h
      split at h
      · simp at h
      · simp at h; grind [toList]
  | lifo =>
    cases new with
    | cons m new => simp [pop?] at h; grind [toList]
    | nil =>
      simp only [pop?] at h
      split at h
      · simp at h
      · rename_i hold
        simp at h
        obtain ⟨rfl, rfl⟩ := h
        simp [toList, ← List.reverse_eq_cons_iff, hold]

end Worklist

end PointsTo
