import PointsTo.Worklist

/-!
# Valid worklists

A worklist is valid when its index holds exactly the pending nodes and no node is pending twice.
Pushing and taking keep both, so a push makes a node pending whatever the order is, and a node taken
was pending and is so no longer.

## Main definitions

* `Worklist.Valid`: the index agrees with the queue

## Main results

* `mem_push`: what is pending after a push
* `cases_of_pop?`: which node is taken, by the order
* `mem_of_pop?`, `size_of_pop?`: what is pending after a node was taken
* `toList_eq_nil_of_pop?`: nothing is taken only if nothing is pending
-/

namespace PointsTo.Worklist

variable {w w' : Worklist} {n : NodeId}

/-- The index holds exactly the pending nodes, and no node is pending twice. -/
structure Valid (w : Worklist) : Prop where
  /-- The index holds the pending nodes. -/
  contains_iff : ∀ {n}, w.contains n = true ↔ n ∈ w.toList
  /-- No node is pending twice. -/
  nodup : w.toList.Nodup

theorem valid_empty (order : WorklistOrder) : (empty order).Valid where
  contains_iff := by simp [contains, empty, toList]
  nodup := List.nodup_nil

/-! ## Pushing -/

theorem mem_push (h : w.Valid) {m : NodeId} :
    m ∈ (w.push n).1.toList ↔ m = n ∨ m ∈ w.toList := by
  rw [toList_push]
  by_cases hn : w.contains n = true
  · rw [if_pos hn]
    constructor
    · exact Or.inr
    · rintro (rfl | hm)
      · exact h.contains_iff.mp hn
      · exact hm
  · rw [if_neg hn, List.mem_append, List.mem_singleton, or_comm]

theorem size_push_le (w : Worklist) (n : NodeId) : (w.push n).1.size ≤ w.size + 1 := by
  rw [← length_toList, ← length_toList, toList_push]
  split
  · exact Nat.le_succ _
  · simp

theorem Valid.push (h : w.Valid) (n : NodeId) : (w.push n).1.Valid := by
  by_cases hn : w.contains n = true
  · rw [Worklist.push, if_pos hn]
    exact h
  · have hfresh : n ∉ w.toList := mt h.contains_iff.mpr hn
    refine ⟨fun {m} => ?_, ?_⟩
    · rw [mem_push h, ← h.contains_iff, Worklist.push, if_neg hn]
      simp [contains, Std.ExtTreeSet.contains_insert, eq_comm (a := n)]
    · rw [toList_push, if_neg hn]
      exact List.nodup_append.mpr ⟨h.nodup, List.pairwise_singleton _ n, fun a ha b hb => by
        rw [List.mem_singleton] at hb
        rintro rfl
        exact hfresh (hb ▸ ha)⟩

/-! ## Taking the next node -/

/-- The node taken stood first in a first-in queue and last otherwise; the others stay. -/
theorem cases_of_pop? (h : w.pop? = some (n, w')) :
    (w.order = .fifo ∧ w.toList = n :: w'.toList) ∨
      (w.order = .lifo ∧ w.toList = w'.toList ++ [n]) := by
  have hlist := (toList_of_pop? h).2
  cases ho : w.order with
  | fifo =>
    rw [ho] at hlist
    exact .inl ⟨rfl, hlist⟩
  | lifo =>
    rw [ho] at hlist
    exact .inr ⟨rfl, hlist⟩

/-- The node taken and the nodes left are the pending nodes, in either order. -/
theorem perm_of_pop? (h : w.pop? = some (n, w')) : w.toList.Perm (n :: w'.toList) := by
  rcases cases_of_pop? h with ⟨-, hlist⟩ | ⟨-, hlist⟩
  · rw [hlist]
  · rw [hlist]
    exact List.perm_append_comm

/-- The nodes left keep their order. -/
theorem sublist_of_pop? (h : w.pop? = some (n, w')) : w'.toList.Sublist w.toList := by
  rcases cases_of_pop? h with ⟨-, hlist⟩ | ⟨-, hlist⟩
  · rw [hlist]
    exact List.sublist_cons_self n _
  · rw [hlist]
    exact List.sublist_append_left _ [n]

theorem mem_of_pop? (h : w.pop? = some (n, w')) {m : NodeId} :
    m ∈ w.toList ↔ m = n ∨ m ∈ w'.toList := by
  rw [(perm_of_pop? h).mem_iff, List.mem_cons]

theorem size_of_pop? (h : w.pop? = some (n, w')) : w.size = w'.size + 1 := by
  rw [← length_toList, ← length_toList, (perm_of_pop? h).length_eq, List.length_cons]

/-- Each order takes from its own end, and turns the other end over when that is empty. -/
theorem queued_of_pop? (h : w.pop? = some (n, w')) : w'.queued = w.queued.erase n := by
  obtain ⟨order, old, new, queued⟩ := w
  cases order with
  | fifo =>
    cases old with
    | cons m old =>
      simp only [pop?, Option.some.injEq, Prod.mk.injEq] at h
      rw [← h.1, ← h.2]
    | nil =>
      simp only [pop?] at h
      split at h
      · cases h
      · simp only [Option.some.injEq, Prod.mk.injEq] at h
        rw [← h.1, ← h.2]
  | lifo =>
    cases new with
    | cons m new =>
      simp only [pop?, Option.some.injEq, Prod.mk.injEq] at h
      rw [← h.1, ← h.2]
    | nil =>
      simp only [pop?] at h
      split at h
      · cases h
      · simp only [Option.some.injEq, Prod.mk.injEq] at h
        rw [← h.1, ← h.2]

theorem Valid.of_pop? (hw : w.Valid) (h : w.pop? = some (n, w')) : w'.Valid := by
  have hnodup : (n :: w'.toList).Nodup := (perm_of_pop? h).nodup_iff.mp hw.nodup
  obtain ⟨hn, hnodup⟩ := List.nodup_cons.mp hnodup
  refine ⟨fun {m} => ?_, hnodup⟩
  have hm := mem_of_pop? h (m := m)
  rw [← hw.contains_iff] at hm
  rw [contains, queued_of_pop? h]
  simp only [Std.ExtTreeSet.contains_erase, Bool.and_eq_true, bne_iff_ne, ne_eq,
    Std.LawfulEqCmp.compare_eq_iff_eq]
  constructor
  · rintro ⟨hne, hc⟩
    exact (hm.mp hc).resolve_left fun he => hne he.symm
  · intro hmem
    exact ⟨fun he => hn (he ▸ hmem), hm.mpr (Or.inr hmem)⟩

theorem toList_eq_nil_of_pop? (h : w.pop? = none) : w.toList = [] := by
  obtain ⟨order, old, new, queued⟩ := w
  cases order with
  | fifo =>
    cases old with
    | cons m old => cases h
    | nil =>
      simp only [pop?] at h
      split at h
      · rename_i hnew
        simpa [toList] using hnew
      · cases h
  | lifo =>
    cases new with
    | cons m new => cases h
    | nil =>
      simp only [pop?] at h
      split at h
      · rename_i hold
        simpa [toList] using hold
      · cases h

end PointsTo.Worklist
