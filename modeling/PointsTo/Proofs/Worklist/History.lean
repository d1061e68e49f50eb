import Mathlib.Data.List.Induction
import Mathlib.Logic.ExistsUnique
import PointsTo.Proofs.Worklist

/-!
# Histories of a worklist

The answers that a worklist gave, in order, say all about it: which nodes are pending, since when,
and which one has to come next. A push is pending from the moment it is accepted until its node is
taken or everything is dropped. The worklist holds exactly the nodes of pending pushes, in the order
of their pushes, so its index refuses no node too many and no node is lost.

## Main definitions

* `Operation`, `Event`: what can be done to a worklist, and what it answers
* `run`: the worklist after a list of operations, and its history
* `PendingSince`: the push at a moment of the history is pending
* `Tracks`: the worklist holds the nodes of the pending pushes
* `Faithful`: every answer is the one that the history before it calls for
* `Lossless`: pushes and takings of a node alternate

## Main results

* `pendingSince_append_singleton`: what one more event does to the pending pushes
* `Tracks.apply`, `tracks_run`: an operation keeps track, and so does a run
* `Tracks.answers`: then it gives the right answer
* `Faithful.lossless`: right answers lose no node and hand none out twice
* `queue_run`: every run of a worklist
-/

namespace PointsTo

/-- Whether a node pushed at moment `i` is taken no later than one pushed at moment `j`. -/
def WorklistOrder.Prefers : WorklistOrder → Nat → Nat → Prop
  | .fifo, i, j => i ≤ j
  | .lifo, i, j => j ≤ i

namespace Worklist

/-! ## Operations and events -/

/-- What can be done to a worklist. -/
inductive Operation where
  | push (n : NodeId)
  | pop
  | clear
deriving DecidableEq, Repr

/-- What a worklist answers. -/
inductive Event where
  /-- A node was pushed, and was accepted or not. -/
  | pushed (n : NodeId) (accepted : Bool)
  /-- A node was taken, if any. -/
  | popped (taken : Option NodeId)
  /-- All nodes were dropped. -/
  | cleared
deriving DecidableEq, Repr

/-- The worklist after the operation, and what it answers. -/
def Operation.apply (w : Worklist) : Operation → Worklist × Event
  | push n => ((w.push n).1, .pushed n (w.push n).2)
  | pop =>
    match w.pop? with
    | some (n, w') => (w', .popped (some n))
    | none => (w, .popped none)
  | clear => (w.clear, .cleared)

/-- The worklist after the operations, and its history. -/
def run (order : WorklistOrder) (ops : List Operation) : Worklist × List Event :=
  ops.foldl (fun state op => ((op.apply state.1).1, state.2 ++ [(op.apply state.1).2]))
    (empty order, [])

theorem run_append_singleton (order : WorklistOrder) (ops : List Operation) (op : Operation) :
    run order (ops ++ [op]) =
      ((op.apply (run order ops).1).1, (run order ops).2 ++ [(op.apply (run order ops).1).2]) := by
  simp [run]

section Histories

variable {order : WorklistOrder} {w : Worklist} {history : List Event} {e : Event} {n m : NodeId}
  {i j k : Nat}

/-! ## Pending pushes -/

/-- **The push of `n` at moment `i` is pending**: it was accepted, and afterwards `n` was not taken
and nothing was dropped. -/
structure PendingSince (history : List Event) (n : NodeId) (i : Nat) : Prop where
  accepted : history[i]? = some (.pushed n true)
  since : ∀ j, i < j → history[j]? ≠ some (.popped (some n)) ∧ history[j]? ≠ some .cleared

theorem PendingSince.lt_length (h : PendingSince history n i) : i < history.length :=
  (List.getElem?_eq_some_iff.mp h.accepted).1

/-- **One more event** makes its push pending if it is an accepted one, and keeps what it neither
takes nor drops. -/
theorem pendingSince_append_singleton :
    PendingSince (history ++ [e]) n i ↔
      (PendingSince history n i ∧ e ≠ .popped (some n) ∧ e ≠ .cleared) ∨
        (i = history.length ∧ e = .pushed n true) := by
  have hget : ∀ j, (history ++ [e])[j]? =
      if j < history.length then history[j]? else if j = history.length then some e else none := by
    intro j
    rw [List.getElem?_append]
    grind
  constructor
  · rintro ⟨haccepted, hsince⟩
    rw [hget] at haccepted
    by_cases hi : i < history.length
    · rw [if_pos hi] at haccepted
      have hlast := hsince history.length hi
      simp only [hget, Nat.lt_irrefl, if_false, if_true, ne_eq, Option.some.injEq] at hlast
      refine .inl ⟨⟨haccepted, ?_⟩, hlast⟩
      intro j hij
      have hj := hsince j hij
      rw [hget] at hj
      by_cases hjl : j < history.length
      · rwa [if_pos hjl] at hj
      · simp [List.getElem?_eq_none (Nat.le_of_not_lt hjl)]
    · grind
  · rintro (⟨⟨haccepted, hsince⟩, htaken, hcleared⟩ | ⟨rfl, rfl⟩)
    · refine ⟨?_, ?_⟩
      · rw [hget, if_pos (List.getElem?_eq_some_iff.mp haccepted).1, haccepted]
      · intro j hij
        have hj := hsince j hij
        grind
    · refine ⟨by simp, ?_⟩
      intro j hij
      grind

/-- An event that neither pushes nor takes nor drops leaves the pending pushes as they are. -/
theorem pendingSince_append_of_ne (haccepted : ∀ n, e ≠ .pushed n true)
    (htaken : ∀ n, e ≠ .popped (some n)) (hcleared : e ≠ .cleared) :
    PendingSince (history ++ [e]) n i ↔ PendingSince history n i := by
  rw [pendingSince_append_singleton]
  simp [haccepted n, htaken n, hcleared]

theorem pendingSince_append_pushed :
    PendingSince (history ++ [.pushed n true]) m i ↔
      PendingSince history m i ∨ (i = history.length ∧ m = n) := by
  rw [pendingSince_append_singleton]
  simp [eq_comm]

theorem pendingSince_append_popped :
    PendingSince (history ++ [.popped (some n)]) m i ↔ PendingSince history m i ∧ m ≠ n := by
  rw [pendingSince_append_singleton]
  simp [eq_comm]

/-- What was pending at a moment. -/
theorem pendingSince_take : PendingSince (history.take j) n i ↔
    i < j ∧ history[i]? = some (.pushed n true) ∧ ∀ k : Nat, i < k → k < j →
      history[k]? ≠ some (.popped (some n)) ∧ history[k]? ≠ some .cleared := by
  constructor
  · rintro ⟨haccepted, hsince⟩
    rw [List.getElem?_take] at haccepted
    split at haccepted
    · rename_i hij
      refine ⟨hij, haccepted, ?_⟩
      intro k hik hkj
      have hk := hsince k hik
      rwa [List.getElem?_take, if_pos hkj] at hk
    · cases haccepted
  · rintro ⟨hij, haccepted, hsince⟩
    refine ⟨by rw [List.getElem?_take, if_pos hij, haccepted], ?_⟩
    intro k hik
    rw [List.getElem?_take]
    split
    · exact hsince k hik ‹_›
    · simp

/-! ## Keeping track -/

/-- **The worklist holds the nodes of the pending pushes**, in the order of these pushes; its index
agrees, and no node stands twice. -/
structure Tracks (history : List Event) (w : Worklist) : Prop extends w.Valid where
  /-- The nodes held are those of pending pushes. -/
  mem_iff : ∀ {n}, n ∈ w.toList ↔ ∃ i, PendingSince history n i
  /-- No node has two pending pushes. -/
  unique : ∀ {n i j}, PendingSince history n i → PendingSince history n j → i = j
  /-- The nodes held stand in the order of their pushes. -/
  ordered : w.toList.Pairwise fun m n =>
    ∀ i j, PendingSince history m i → PendingSince history n j → i < j

/-- An empty worklist tracks a history that leaves nothing pending. -/
theorem tracks_empty (order : WorklistOrder) (h : ∀ n i, ¬ PendingSince history n i) :
    Tracks history (empty order) where
  toValid := valid_empty order
  mem_iff {n} := by simp [h]
  unique hi := absurd hi (h _ _)
  ordered := List.Pairwise.nil

/-- Only the pending pushes of a history matter. -/
theorem Tracks.congr {history' : List Event} (h : Tracks history w)
    (hsame : ∀ {n i}, PendingSince history' n i ↔ PendingSince history n i) :
    Tracks history' w where
  toValid := h.toValid
  mem_iff {n} := by simp only [hsame, h.mem_iff]
  unique hi hj := h.unique (hsame.mp hi) (hsame.mp hj)
  ordered := h.ordered.imp fun hlt i j hi hj => hlt i j (hsame.mp hi) (hsame.mp hj)

theorem Tracks.not_pendingSince (h : Tracks history w) (hn : ¬ w.contains n = true) (i : Nat) :
    ¬ PendingSince history n i := by
  intro hi
  exact hn (h.contains_iff.mpr (h.mem_iff.mpr ⟨i, hi⟩))

/-- A node that is not pending is accepted, and its push is the latest one. -/
theorem Tracks.accept (h : Tracks history w) (hn : ¬ w.contains n = true) :
    Tracks (history ++ [.pushed n true]) (w.push n).1 := by
  have hfresh := h.not_pendingSince hn
  have hold : ∀ {m i}, m ∈ w.toList → PendingSince (history ++ [.pushed n true]) m i →
      PendingSince history m i := by
    intro m i hm hi
    refine (pendingSince_append_pushed.mp hi).resolve_right ?_
    rintro ⟨-, rfl⟩
    exact hn (h.contains_iff.mpr hm)
  have hnew : ∀ {i}, PendingSince (history ++ [.pushed n true]) n i → i = history.length := by
    intro i hi
    exact ((pendingSince_append_pushed.mp hi).resolve_left (hfresh i)).1
  refine ⟨h.toValid.push n, ?_, ?_, ?_⟩
  · intro m
    rw [mem_push h.toValid, h.mem_iff]
    simp only [pendingSince_append_pushed, exists_or]
    simp [or_comm]
  · intro m i j hi hj
    by_cases hm : m = n
    · subst hm
      rw [hnew hi, hnew hj]
    · exact h.unique ((pendingSince_append_pushed.mp hi).resolve_right fun heq => hm heq.2)
        ((pendingSince_append_pushed.mp hj).resolve_right fun heq => hm heq.2)
  · rw [toList_push, if_neg hn, List.pairwise_append]
    refine ⟨?_, List.pairwise_singleton _ _, ?_⟩
    · exact h.ordered.imp_of_mem fun ha hb hlt i j hi hj => hlt i j (hold ha hi) (hold hb hj)
    · intro m hm x hx i j hi hj
      rw [List.mem_singleton.mp hx] at hj
      rw [hnew hj]
      exact (hold hm hi).lt_length

theorem Tracks.push (h : Tracks history w) (n : NodeId) :
    Tracks (history ++ [.pushed n (w.push n).2]) (w.push n).1 := by
  rw [push_snd]
  by_cases hn : w.contains n = true
  · rw [Worklist.push, if_pos hn]
    exact h.congr (pendingSince_append_of_ne (by simp [hn]) (by simp) (by simp))
  · rw [Bool.eq_false_iff.mpr hn]
    exact h.accept hn

/-- A node that was taken was pending once, so its push is pending no longer. -/
theorem Tracks.of_pop? {w' : Worklist} (h : Tracks history w) (hw : w.pop? = some (n, w')) :
    Tracks (history ++ [.popped (some n)]) w' := by
  have hnot : n ∉ w'.toList :=
    (List.nodup_cons.mp ((perm_of_pop? hw).nodup_iff.mp h.nodup)).1
  refine ⟨h.toValid.of_pop? hw, ?_, ?_, ?_⟩
  · intro m
    simp only [pendingSince_append_popped, exists_and_right, ← h.mem_iff, mem_of_pop? hw]
    grind
  · intro m i j hi hj
    exact h.unique (pendingSince_append_popped.mp hi).1 (pendingSince_append_popped.mp hj).1
  · exact (h.ordered.sublist (sublist_of_pop? hw)).imp fun hlt i j hi hj =>
      hlt i j (pendingSince_append_popped.mp hi).1 (pendingSince_append_popped.mp hj).1

/-- **An operation keeps track.** -/
theorem Tracks.apply (h : Tracks history w) (op : Operation) :
    Tracks (history ++ [(op.apply w).2]) (op.apply w).1 := by
  cases op with
  | push n => exact h.push n
  | pop =>
    cases hw : w.pop? with
    | none =>
      simp only [Operation.apply, hw]
      exact h.congr (pendingSince_append_of_ne (by simp) (by simp) (by simp))
    | some taken =>
      simp only [Operation.apply, hw]
      exact h.of_pop? hw
  | clear =>
    refine tracks_empty w.order ?_
    intro n i hi
    rw [pendingSince_append_singleton] at hi
    simp [Operation.apply] at hi

theorem tracks_run (order : WorklistOrder) (ops : List Operation) :
    Tracks (run order ops).2 (run order ops).1 := by
  induction ops using List.reverseRecOn with
  | nil => exact tracks_empty order fun n i hi => by simpa [run] using hi.accepted
  | append_singleton ops op ih =>
    rw [run_append_singleton]
    exact ih.apply op

/-! ## Right answers -/

/-- **The answer that a history calls for**: a push is accepted exactly when its node is not
pending, the node taken is pending and the order prefers its push to all other pending ones, and
none is taken exactly when none is pending. -/
def Event.Answers (order : WorklistOrder) (history : List Event) : Event → Prop
  | .pushed n accepted => accepted = true ↔ ∀ i, ¬ PendingSince history n i
  | .popped taken =>
    (taken = none ↔ ∀ n i, ¬ PendingSince history n i) ∧
      ∀ n, taken = some n → ∃ i, PendingSince history n i ∧
        ∀ m j, PendingSince history m j → order.Prefers i j
  | .cleared => True

theorem prefers_refl (order : WorklistOrder) (i : Nat) : order.Prefers i i := by
  cases order <;> exact Nat.le_refl i

/-- The node that is taken is the one whose push the order prefers. The end from which it is taken
is that of the earliest or of the latest push. -/
theorem Tracks.prefers {w' : Worklist} (h : Tracks history w) (hw : w.pop? = some (n, w')) :
    ∃ i, PendingSince history n i ∧ ∀ m j, PendingSince history m j → w.order.Prefers i j := by
  have hmem : n ∈ w.toList := (mem_of_pop? hw).mpr (.inl rfl)
  obtain ⟨i, hi⟩ := h.mem_iff.mp hmem
  refine ⟨i, hi, ?_⟩
  intro m j hj
  rcases (mem_of_pop? hw).mp (h.mem_iff.mpr ⟨j, hj⟩) with rfl | hm
  · rw [h.unique hi hj]
    exact prefers_refl w.order j
  · have hordered := h.ordered
    rcases cases_of_pop? hw with ⟨horder, hlist⟩ | ⟨horder, hlist⟩
    · rw [hlist, List.pairwise_cons] at hordered
      rw [horder]
      exact Nat.le_of_lt (hordered.1 m hm i j hi hj)
    · rw [hlist, List.pairwise_append] at hordered
      rw [horder]
      exact Nat.le_of_lt (hordered.2.2 m hm n (List.mem_singleton_self n) j i hj hi)

/-- **A worklist that keeps track gives the right answer.** -/
theorem Tracks.answers (h : Tracks history w) (op : Operation) :
    (op.apply w).2.Answers w.order history := by
  cases op with
  | push n =>
    change (w.push n).2 = true ↔ _
    rw [push_snd, Bool.not_eq_true', ← Bool.not_eq_true, h.contains_iff, h.mem_iff, not_exists]
  | pop =>
    cases hw : w.pop? with
    | none =>
      simp only [Operation.apply, hw]
      refine ⟨iff_of_true rfl fun n i hi => ?_, fun n hn => by cases hn⟩
      have hmem : n ∈ w.toList := h.mem_iff.mpr ⟨i, hi⟩
      rw [toList_eq_nil_of_pop? hw] at hmem
      cases hmem
    | some taken =>
      simp only [Operation.apply, hw]
      obtain ⟨i, hi, hprefers⟩ := h.prefers hw
      refine ⟨iff_of_false (by simp) fun hnone => hnone _ i hi, fun n hn => ?_⟩
      rw [← Option.some.inj hn]
      exact ⟨i, hi, hprefers⟩
  | clear => trivial

theorem order_run (order : WorklistOrder) (ops : List Operation) :
    (run order ops).1.order = order := by
  induction ops using List.reverseRecOn with
  | nil => rfl
  | append_singleton ops op ih =>
    rw [run_append_singleton]
    cases op with
    | push n =>
      refine Eq.trans ?_ ih
      simp only [Operation.apply, Worklist.push]
      split <;> rfl
    | pop =>
      cases hw : (run order ops).1.pop? with
      | none => simpa only [Operation.apply, hw] using ih
      | some taken =>
        simp only [Operation.apply, hw]
        exact (toList_of_pop? hw).1.trans ih
    | clear => exact ih

/-- **Every answer is the one that the history before it calls for.** -/
def Faithful (order : WorklistOrder) (history : List Event) : Prop :=
  ∀ (k : Nat) (e : Event), history[k]? = some e → e.Answers order (history.take k)

theorem Faithful.append_singleton (h : Faithful order history) (he : e.Answers order history) :
    Faithful order (history ++ [e]) := by
  intro k e' hk
  by_cases hlt : k < history.length
  · rw [List.getElem?_append_left hlt] at hk
    rw [List.take_append_of_le_length (Nat.le_of_lt hlt)]
    exact h k e' hk
  · obtain ⟨hlength, hget⟩ := List.getElem?_eq_some_iff.mp hk
    obtain rfl : k = history.length := by
      rw [List.length_append, List.length_singleton] at hlength
      omega
    rw [List.getElem_concat_length rfl] at hget
    rw [List.take_left' rfl, ← hget]
    exact he

theorem faithful_run (order : WorklistOrder) (ops : List Operation) :
    Faithful order (run order ops).2 := by
  induction ops using List.reverseRecOn with
  | nil =>
    intro k e hk
    cases hk
  | append_singleton ops op ih =>
    have hanswers := (tracks_run order ops).answers op
    rw [order_run] at hanswers
    rw [run_append_singleton]
    exact ih.append_singleton hanswers

/-! ## Nothing is lost -/

/-- **Pushes and takings of a node alternate**, unless nodes are dropped. -/
structure Lossless (history : List Event) : Prop where
  /-- Between two accepted pushes of a node, the second one being the next, it is taken once. -/
  taken : ∀ {n : NodeId} {i j : Nat}, i < j → history[i]? = some (.pushed n true) →
    history[j]? = some (.pushed n true) →
    (∀ k : Nat, i < k → k < j →
      history[k]? ≠ some (.pushed n true) ∧ history[k]? ≠ some .cleared) →
    ∃! k : Nat, i < k ∧ k < j ∧ history[k]? = some (.popped (some n))
  /-- Between two takings of a node its push was accepted again. -/
  pushed : ∀ {n : NodeId} {i j : Nat}, i < j → history[i]? = some (.popped (some n)) →
    history[j]? = some (.popped (some n)) →
    ∃ k : Nat, i < k ∧ k < j ∧ history[k]? = some (.pushed n true)

/-- The second time the node was pending since a push that the first taking did not end. -/
theorem Faithful.pushed_between (h : Faithful order history) (hij : i < j)
    (hi : history[i]? = some (.popped (some n))) (hj : history[j]? = some (.popped (some n))) :
    ∃ k, i < k ∧ k < j ∧ history[k]? = some (.pushed n true) := by
  obtain ⟨k, hpending, -⟩ := (h j _ hj).2 n rfl
  obtain ⟨hkj, haccepted, hsince⟩ := pendingSince_take.mp hpending
  refine ⟨k, ?_, hkj, haccepted⟩
  rcases Nat.lt_trichotomy i k with hik | rfl | hki
  · exact hik
  · rw [haccepted] at hi
    cases hi
  · exact absurd hi (hsince i hki hij).1

/-- **Right answers lose no node and hand none out twice.** -/
theorem Faithful.lossless (h : Faithful order history) : Lossless history where
  taken {n i j} hij hi hj hbetween := by
    have hnot : ¬ PendingSince (history.take j) n i := (h j _ hj).mp rfl i
    have hexists : ∃ k, i < k ∧ k < j ∧ history[k]? = some (.popped (some n)) := by
      by_contra hnone
      refine hnot (pendingSince_take.mpr ⟨hij, hi, ?_⟩)
      intro k hik hkj
      exact ⟨fun hk => hnone ⟨k, hik, hkj, hk⟩, (hbetween k hik hkj).2⟩
    have honce : ∀ {k l}, i < k → l < j → k < l → history[k]? = some (.popped (some n)) →
        history[l]? ≠ some (.popped (some n)) := by
      intro k l hik hlj hkl hk hl
      obtain ⟨p, hkp, hpl, hp⟩ := h.pushed_between hkl hk hl
      exact (hbetween p (Nat.lt_trans hik hkp) (Nat.lt_trans hpl hlj)).1 hp
    obtain ⟨k, hik, hkj, hk⟩ := hexists
    refine ⟨k, ⟨hik, hkj, hk⟩, ?_⟩
    rintro l ⟨hil, hlj, hl⟩
    rcases Nat.lt_trichotomy k l with hlt | heq | hlt
    · exact absurd hl (honce hik hlj hlt hk)
    · exact heq.symm
    · exact absurd hk (honce hil hkj hlt hl)
  pushed := h.pushed_between

/-! ## Taking all that is pending -/

theorem drain_of_pop? {w' : Worklist} (hw : w.pop? = some (n, w')) :
    w.drain.1 = n :: w'.drain.1 := by
  have hsame := (toList_of_pop? hw).1
  rcases cases_of_pop? hw with ⟨horder, hlist⟩ | ⟨horder, hlist⟩
  · simp only [drain, hsame, horder, hlist]
  · simp [drain, hsame, horder, hlist]

/-- Taking as many nodes as are pending hands each of them out, in the order of the worklist. -/
theorem run_append_replicate_pop (order : WorklistOrder) (ops : List Operation) (size : Nat)
    (hsize : (run order ops).1.size = size) :
    (run order (ops ++ List.replicate size .pop)).1.toList = [] ∧
      (run order (ops ++ List.replicate size .pop)).2 =
        (run order ops).2 ++ (run order ops).1.drain.1.map fun n => .popped (some n) := by
  induction size generalizing ops with
  | zero =>
    have hnil : (run order ops).1.toList = [] := by
      rw [← List.length_eq_zero_iff, length_toList, hsize]
    rw [List.replicate_zero, List.append_nil]
    refine ⟨hnil, ?_⟩
    have hdrain : (run order ops).1.drain.1 = [] := by
      unfold drain
      split <;> simp [hnil]
    rw [hdrain, List.map_nil, List.append_nil]
  | succ size ih =>
    cases hw : (run order ops).1.pop? with
    | none =>
      have hnil := congrArg List.length (toList_eq_nil_of_pop? hw)
      rw [length_toList, hsize] at hnil
      cases hnil
    | some taken =>
      obtain ⟨n, w'⟩ := taken
      have hrun : run order (ops ++ [.pop]) = (w', (run order ops).2 ++ [.popped (some n)]) := by
        simp only [run_append_singleton, Operation.apply, hw]
      have hless : (run order (ops ++ [.pop])).1.size = size := by
        rw [hrun]
        exact Nat.succ.inj ((size_of_pop? hw).symm.trans hsize)
      have hrest := ih (ops ++ [.pop]) hless
      rw [hrun] at hrest
      rw [List.replicate_succ, List.append_cons ops, drain_of_pop? hw, List.map_cons,
        List.append_cons (run order ops).2]
      exact hrest

end Histories

/-- **A worklist is a queue without repetitions.** After any operations the index holds exactly the
pending nodes, none of which stands twice; every push was accepted exactly when its node was not
pending, every node taken was the oldest or the newest pending one, and none was taken only when
none was pending. So between two accepted pushes of a node it is taken once, unless nodes were
dropped, and between two takings it is pushed; and as many takings as nodes are pending hand out
each of them. -/
theorem queue_run (order : WorklistOrder) (ops : List Operation) :
    Tracks (run order ops).2 (run order ops).1 ∧
      Faithful order (run order ops).2 ∧ Lossless (run order ops).2 ∧
      (run order (ops ++ List.replicate (run order ops).1.size .pop)).1.toList = [] ∧
      (run order (ops ++ List.replicate (run order ops).1.size .pop)).2 =
        (run order ops).2 ++ (run order ops).1.drain.1.map fun n => .popped (some n) :=
  ⟨tracks_run order ops, faithful_run order ops, (faithful_run order ops).lossless,
    run_append_replicate_pop order ops _ rfl⟩

/-- A node that is pending is refused, and accepted again once it was taken. -/
example : (run .lifo [.push 5, .push 7, .push 5, .pop, .push 7, .pop, .pop, .pop]).2 =
    [.pushed 5 true, .pushed 7 true, .pushed 5 false, .popped (some 7), .pushed 7 true,
      .popped (some 7), .popped (some 5), .popped none] := by
  decide +kernel

end Worklist

end PointsTo
