import PointsTo.Proofs.IdSet.Finite
import PointsTo.Store

/-!
# Stores are maps to finite sets

A store lists a node when its set gets a first object and strikes it out when the set is taken, so
it never lists a node with an empty set. Seen from outside it is a map that has a finite set for
every node. To say so, a store and a map are put beside numbered registers of sets, and the same
operations are applied to both: sets are built in the registers, copied from the table, added to it
and taken out of it. The two never come apart.

## Main definitions

* `extend`: adding objects to one set of a map, and whether it grew
* `Holds`: a store holds a map, and lists no node with an empty set
* `Tables`: what can be done to a table of sets, whatever holds it
* `listing`, `mapping`: stores with ascending lists, and maps to finite sets
* `Operation`, `after`: operations on a table and registers, and the state after a list of them
* `Represents`: the store holds the map, and the registers have the same elements
* `ActsAsMap`: so the operations and the questions agree

## Main results

* `mem_keys`, `pairwise_keys`: the nodes of a store with a set that is not empty
* `Holds.insert`, `Holds.union`, `Holds.unionFrom`, `Holds.take`: what the operations do to the map
* `Represents.apply`, `represents_after`: an operation keeps the two together, and so does a list
* `actsAsMap_after`: whatever was done to it, a store behaves as a map
-/

namespace PointsTo.Store

variable {s : Store} {n m o : NodeId} {t : IdSet}

/-! ## Nodes listed -/

theorem get_eq_getD (s : Store) (n : NodeId) : s.get n = s.sets[n]?.getD ∅ :=
  Std.ExtTreeMap.getD_eq_getD_getElem?

/-- A node that a store lists has an object in its set. -/
theorem exists_mem_of_mem_keys (h : n ∈ s.keys) : ∃ o, o ∈ s.get n := by
  obtain ⟨⟨m, objects⟩, hentry, rfl⟩ := List.mem_map.mp h
  obtain ⟨hlisted, hne⟩ := List.mem_filter.mp hentry
  have hget : s.get m = objects := by
    rw [get_eq_getD, Std.ExtTreeMap.mem_toList_iff_getElem?_eq_some.mp hlisted, Option.getD_some]
  by_contra hnone
  have hempty : objects.isEmpty = true := by
    rw [← hget]
    exact IdSet.isEmpty_iff.mpr fun o ho => hnone ⟨o, ho⟩
  simp [hempty] at hne

theorem mem_keys : n ∈ s.keys ↔ ∃ o, o ∈ s.get n := by
  refine ⟨exists_mem_of_mem_keys, ?_⟩
  rintro ⟨o, ho⟩
  rw [get_eq_getD] at ho
  cases hlisted : s.sets[n]? with
  | none =>
    rw [hlisted, Option.getD_none] at ho
    exact absurd ho (IdSet.not_mem_empty o)
  | some t =>
    rw [hlisted, Option.getD_some] at ho
    have hne : ¬ t.isEmpty = true := fun hempty => IdSet.isEmpty_iff.mp hempty o ho
    refine List.mem_map.mpr ⟨(n, t), List.mem_filter.mpr ⟨?_, by simp [hne]⟩, rfl⟩
    exact Std.ExtTreeMap.mem_toList_iff_getElem?_eq_some.mpr hlisted

/-- Nodes are listed in ascending order, each of them once. -/
theorem pairwise_keys (s : Store) : s.keys.Pairwise (· < ·) := by
  refine List.pairwise_map.mpr (List.Pairwise.filter _ ?_)
  exact Std.ExtTreeMap.ordered_keys_toList.imp Nat.compare_eq_lt.mp

/-! ## Maps -/

section Maps

variable {sets : NodeId → Finset Nat} {objects : Finset Nat}

/-- **Adds objects to the set of `n`**; tells whether the set grew. -/
def extend (sets : NodeId → Finset Nat) (n : NodeId) (objects : Finset Nat) :
    (NodeId → Finset Nat) × Bool :=
  (Function.update sets n (sets n ∪ objects), sets n ⊂ sets n ∪ objects)

theorem snd_extend_iff :
    (extend sets n objects).2 = true ↔ sets n ⊂ (extend sets n objects).1 n := by
  simp only [extend, Function.update_self, decide_eq_true_iff]

/-- Objects that are there already change nothing. -/
theorem extend_of_subset (h : objects ⊆ sets n) : extend sets n objects = (sets, false) := by
  have hself : sets n ∪ objects = sets n := Finset.union_eq_left.mpr h
  rw [extend, hself, Function.update_eq_self, decide_eq_false (ssubset_irrefl _)]

/-- **The store holds the map**: each list ascends and has the elements of the finite set, and no
empty set is stored. -/
structure Holds (s : Store) (sets : NodeId → Finset Nat) : Prop where
  nonempty : ∀ {n : NodeId} {t : IdSet}, s.sets[n]? = some t → t ≠ ∅
  represents : IdSet.Represents s.get sets

theorem Holds.ascending (h : s.Holds sets) (n : NodeId) : (s.get n).Ascending := (h.represents n).1

theorem Holds.toFinset_get (h : s.Holds sets) (n : NodeId) : (s.get n).toFinset = sets n :=
  (h.represents n).2

theorem holds_empty : (∅ : Store).Holds fun _ => ∅ where
  nonempty hlisted := by
    rw [show (∅ : Store).sets = ∅ from rfl, Std.ExtTreeMap.getElem?_empty] at hlisted
    cases hlisted
  represents n := by
    rw [get_empty]
    exact ⟨IdSet.ascending_empty, IdSet.toFinset_empty⟩

/-- A set that is not empty is put in the place of another one. -/
theorem Holds.put (h : s.Holds sets) (n : NodeId) (ht : t.Ascending) (heq : t.toFinset = objects)
    (hne : objects.Nonempty) :
    (⟨s.sets.insert n t⟩ : Store).Holds (Function.update sets n objects) where
  nonempty {m u} hlisted := by
    rw [Std.ExtTreeMap.getElem?_insert] at hlisted
    split at hlisted
    · obtain rfl : t = u := Option.some.inj hlisted
      rintro rfl
      rw [← heq, IdSet.toFinset_empty] at hne
      exact Finset.not_nonempty_empty hne
    · exact h.nonempty hlisted
  represents := by
    have hget : (⟨s.sets.insert n t⟩ : Store).get = Function.update s.get n t := by
      funext m
      simp only [get, Std.ExtTreeMap.getD_insert, Std.LawfulEqCmp.compare_eq_iff_eq,
        Function.update_apply, eq_comm (a := m)]
    rw [hget]
    exact h.represents.update n ht heq

/-- Store and map are left together, with the same report. -/
def Agrees (result : Store × Bool) (image : (NodeId → Finset Nat) × Bool) : Prop :=
  result.1.Holds image.1 ∧ result.2 = image.2

theorem Holds.insert (h : s.Holds sets) (n o : NodeId) :
    Agrees (s.insert n o) (extend sets n {o}) := by
  have heq : ((s.get n).insert o).toFinset = sets n ∪ {o} := by
    rw [IdSet.toFinset_insert, h.toFinset_get, Finset.insert_eq, Finset.union_comm]
  have hne : (sets n ∪ {o}).Nonempty := (Finset.singleton_nonempty o).mono Finset.subset_union_right
  refine ⟨h.put n (IdSet.ascending_insert (h.ascending n) o) heq hne, Bool.eq_iff_iff.mpr ?_⟩
  have hgrows : sets n ⊂ sets n ∪ {o} ↔ ¬ o ∈ sets n := by
    rw [← Finset.singleton_subset_iff]
    exact left_lt_sup
  rw [Store.insert, IdSet.snd_add_iff (h.ascending n), h.toFinset_get, extend, decide_eq_true_iff,
    hgrows]

theorem Holds.union (h : s.Holds sets) (n : NodeId) (ht : t.Ascending) :
    Agrees (s.union n t) (extend sets n t.toFinset) := by
  rw [Store.union]
  by_cases hempty : t.isEmpty = true
  · rw [if_pos hempty, extend_of_subset]
    · exact ⟨h, rfl⟩
    · rw [IdSet.isEmpty_iff_toFinset.mp hempty]
      exact Finset.empty_subset _
  · rw [if_neg hempty]
    have heq : (s.get n ∪ t).toFinset = sets n ∪ t.toFinset := by
      rw [IdSet.toFinset_union, h.toFinset_get]
    have hne : (sets n ∪ t.toFinset).Nonempty := by
      rw [IdSet.isEmpty_iff_toFinset] at hempty
      exact (Finset.nonempty_iff_ne_empty.mpr hempty).mono Finset.subset_union_right
    refine ⟨h.put n (IdSet.ascending_union (h.ascending n) ht) heq hne, Bool.eq_iff_iff.mpr ?_⟩
    rw [IdSet.snd_absorb_iff (h.ascending n) ht, h.toFinset_get, extend, decide_eq_true_iff]

theorem Holds.unionFrom (h : s.Holds sets) (n m : NodeId) :
    Agrees (s.unionFrom n m) (extend sets n (sets m)) := by
  rw [Store.unionFrom]
  by_cases hnm : n = m
  · rw [if_pos hnm, extend_of_subset]
    · exact ⟨h, rfl⟩
    · rw [hnm]
  · rw [if_neg hnm, ← h.toFinset_get m]
    exact h.union n (h.ascending m)

theorem Holds.take (h : s.Holds sets) (n : NodeId) :
    (s.take n).2.Holds (Function.update sets n ∅) where
  nonempty {m t} hlisted := by
    rw [Store.take, Std.ExtTreeMap.getElem?_erase] at hlisted
    split at hlisted
    · cases hlisted
    · exact h.nonempty hlisted
  represents := by
    have hget : (s.take n).2.get = Function.update s.get n ∅ := by
      funext m
      rw [get_take, Function.update_apply]
    rw [hget]
    exact h.represents.update n IdSet.ascending_empty IdSet.toFinset_empty

/-! ## Questions -/

/-- All nodes that are stored are listed. -/
theorem Holds.keys_eq (h : s.Holds sets) : s.keys = s.sets.keys := by
  have hall : (s.sets.toList.filter fun entry => !entry.2.isEmpty) = s.sets.toList := by
    refine List.filter_eq_self.mpr ?_
    rintro ⟨n, t⟩ hentry
    have hne := h.nonempty (Std.ExtTreeMap.mem_toList_iff_getElem?_eq_some.mp hentry)
    rw [Bool.not_eq_true', ← Bool.not_eq_true]
    exact fun hempty => hne (IdSet.eq_empty_of_isEmpty hempty)
  rw [keys, hall, Std.ExtTreeMap.map_fst_toList_eq_keys]

theorem Holds.size_eq (h : s.Holds sets) : s.size = s.keys.length := by
  rw [size, h.keys_eq, Std.ExtTreeMap.length_keys]

theorem Holds.mem_keys_iff (h : s.Holds sets) : n ∈ s.keys ↔ (sets n).Nonempty := by
  rw [mem_keys, ← h.toFinset_get]
  simp only [Finset.Nonempty, IdSet.mem_toFinset]

theorem Holds.isEmpty_iff (h : s.Holds sets) : s.isEmpty = true ↔ ∀ n, sets n = ∅ := by
  rw [isEmpty, ← Std.ExtTreeMap.isEmpty_keys, ← h.keys_eq, List.isEmpty_iff,
    List.eq_nil_iff_forall_not_mem]
  simp only [h.mem_keys_iff, Finset.not_nonempty_iff_eq_empty]

end Maps

/-! ## Operations on a table and registers -/

/-- What can be done to a table of sets, whatever holds the table and the sets. Adding to a set
comes with a report, taking a set with the set. -/
structure Tables (σ α : Type) where
  /-- What can be done to the sets themselves. -/
  sets : IdSet.Sets α
  empty : σ
  get : σ → NodeId → α
  insert : σ → NodeId → NodeId → σ × Bool
  union : σ → NodeId → α → σ × Bool
  unionFrom : σ → NodeId → NodeId → σ × Bool
  take : σ → NodeId → α × σ

/-- Stores, with sets as lists. -/
def listing : Tables Store IdSet where
  sets := IdSet.listed
  empty := ∅
  get := get
  insert := insert
  union := union
  unionFrom := unionFrom
  take := take

/-- **Maps to finite sets**: adding reports that the set grew, taking leaves the empty set. -/
def mapping : Tables (NodeId → Finset Nat) (Finset Nat) where
  sets := IdSet.finite
  empty _ := ∅
  get sets n := sets n
  insert sets n o := extend sets n {o}
  union := extend
  unionFrom sets n m := extend sets n (sets m)
  take sets n := (sets n, Function.update sets n ∅)

/-- A table of sets beside numbered registers of sets. -/
structure State (σ α : Type) where
  table : σ
  registers : Nat → α

/-- What can be done to a table and to the registers. -/
inductive Operation where
  /-- Builds sets in the registers. -/
  | build (op : IdSet.Operation)
  /-- Copies the set of `n` to a register. -/
  | get (n : NodeId) (r : Nat)
  | insert (n o : NodeId)
  /-- Adds the set in a register to the set of `n`. -/
  | union (n : NodeId) (r : Nat)
  | unionFrom (n m : NodeId)
  /-- Moves the set of `n` to a register. -/
  | take (n : NodeId) (r : Nat)
  | clear
deriving DecidableEq, Repr

namespace Operation

/-- The node whose set the operation changes, if it names one. -/
def target? : Operation → Option NodeId
  | insert n _ | union n _ | unionFrom n _ | take n _ => some n
  | build _ | get _ _ | clear => none

/-- The state after the operation, with its report if it makes one. -/
def apply {σ α : Type} (T : Tables σ α) (x : State σ α) : Operation → State σ α × Option Bool
  | build op =>
    ({ x with registers := (op.apply T.sets x.registers).1 }, (op.apply T.sets x.registers).2)
  | get n r => ({ x with registers := Function.update x.registers r (T.get x.table n) }, none)
  | insert n o => ({ x with table := (T.insert x.table n o).1 }, some (T.insert x.table n o).2)
  | union n r =>
    ({ x with table := (T.union x.table n (x.registers r)).1 },
      some (T.union x.table n (x.registers r)).2)
  | unionFrom n m =>
    ({ x with table := (T.unionFrom x.table n m).1 }, some (T.unionFrom x.table n m).2)
  | take n r =>
    (⟨(T.take x.table n).2, Function.update x.registers r (T.take x.table n).1⟩, none)
  | clear => ({ x with table := T.empty }, none)

end Operation

/-- The state after the operations; the table and all registers are empty at first. -/
def after {σ α : Type} (T : Tables σ α) (ops : List Operation) : State σ α :=
  ops.foldl (fun x op => (op.apply T x).1) ⟨T.empty, fun _ => T.sets.empty⟩

theorem after_append_singleton {σ α : Type} (T : Tables σ α) (ops : List Operation)
    (op : Operation) : after T (ops ++ [op]) = (op.apply T (after T ops)).1 := by
  simp [after]

/-! ## Laws of maps -/

section Laws

variable {y : State (NodeId → Finset Nat) (Finset Nat)} {op : Operation}

/-- An operation changes no set but that of the node it names, unless it clears the map. -/
theorem table_apply_mapping_of_ne (hclear : op ≠ .clear) (hm : op.target? ≠ some m) :
    (op.apply mapping y).1.table m = y.table m := by
  cases op with
  | build op | get n r => rfl
  | clear => exact absurd rfl hclear
  | insert n o | union n r | unionFrom n k | take n r =>
    exact Function.update_of_ne (fun hmn => hm (congrArg some hmn.symm)) ..

/-- A report tells whether the set of the node named grew. -/
theorem report_apply_mapping {grew : Bool} (hn : op.target? = some n)
    (hreport : (op.apply mapping y).2 = some grew) :
    grew = true ↔ y.table n ⊂ (op.apply mapping y).1.table n := by
  cases op with
  | build op | get k r | clear => cases hn
  | take k r => cases hreport
  | insert k o | union k r | unionFrom k i =>
    obtain rfl : k = n := Option.some.inj hn
    rw [← Option.some.inj hreport]
    exact snd_extend_iff

end Laws

/-! ## The simulation -/

section Simulation

variable {x : State Store IdSet} {y : State (NodeId → Finset Nat) (Finset Nat)}

/-- **The store holds the map**, and the registers hold lists with the elements of the finite
sets. -/
structure Represents (x : State Store IdSet) (y : State (NodeId → Finset Nat) (Finset Nat)) :
    Prop where
  table : x.table.Holds y.table
  registers : IdSet.Represents x.registers y.registers

/-- The set of a node is put in a register. -/
theorem Represents.load (h : Represents x y) (n : NodeId) (r : Nat) :
    IdSet.Represents (Function.update x.registers r (x.table.get n))
      (Function.update y.registers r (y.table n)) :=
  h.registers.update r (h.table.ascending n) (h.table.toFinset_get n)

/-- The set in a register is added to the set of a node. -/
theorem Represents.union (h : Represents x y) (n : NodeId) (r : Nat) :
    Agrees (x.table.union n (x.registers r)) (extend y.table n (y.registers r)) := by
  rw [← (h.registers r).2]
  exact h.table.union n (h.registers r).1

/-- **An operation keeps store and map together.** -/
theorem Represents.apply (h : Represents x y) (op : Operation) :
    Represents (op.apply listing x).1 (op.apply mapping y).1 := by
  cases op with
  | build op => exact ⟨h.table, h.registers.apply op⟩
  | get n r => exact ⟨h.table, h.load n r⟩
  | insert n o => exact ⟨(h.table.insert n o).1, h.registers⟩
  | union n r => exact ⟨(h.union n r).1, h.registers⟩
  | unionFrom n m => exact ⟨(h.table.unionFrom n m).1, h.registers⟩
  | take n r =>
    exact ⟨h.table.take n, h.load n r⟩
  | clear => exact ⟨holds_empty, h.registers⟩

theorem represents_after (ops : List Operation) :
    Represents (after listing ops) (after mapping ops) := by
  induction ops using List.reverseRecOn with
  | nil => exact ⟨holds_empty, fun _ => ⟨IdSet.ascending_empty, IdSet.toFinset_empty⟩⟩
  | append_singleton ops op ih =>
    rw [after_append_singleton, after_append_singleton]
    exact ih.apply op

/-- Every operation makes the same report on both sides. -/
theorem Represents.report (h : Represents x y) (op : Operation) :
    (op.apply listing x).2 = (op.apply mapping y).2 := by
  cases op with
  | build op => exact h.registers.report op
  | get n r | take n r | clear => rfl
  | insert n o => exact congrArg some (h.table.insert n o).2
  | union n r => exact congrArg some (h.union n r).2
  | unionFrom n m => exact congrArg some (h.table.unionFrom n m).2

/-- **The store behaves as the map.** -/
structure ActsAsMap (x : State Store IdSet) (y : State (NodeId → Finset Nat) (Finset Nat)) :
    Prop where
  /-- The list of a node ascends. -/
  ascending : ∀ n, (x.table.get n).elements.Pairwise (· < ·)
  /-- It holds the elements of the set that the map has there. -/
  mem_get : ∀ {n o}, o ∈ (x.table.get n).elements ↔ o ∈ y.table n
  /-- An operation makes the report that it makes on the map. -/
  report : ∀ op : Operation, (op.apply listing x).2 = (op.apply mapping y).2
  /-- It changes no set but that of the node it names, unless it clears the store. -/
  unchanged : ∀ {op : Operation} {m}, op ≠ .clear → op.target? ≠ some m →
    (op.apply listing x).1.table.get m = x.table.get m
  /-- Its report is that the set of this node grew. -/
  grew : ∀ {op : Operation} {n grew}, op.target? = some n → (op.apply listing x).2 = some grew →
    (grew = true ↔
      (x.table.get n).toFinset ⊂ ((op.apply listing x).1.table.get n).toFinset)
  /-- A set that is taken is handed out as it was, and the empty set is left. -/
  take : ∀ {n}, (x.table.take n).1 = x.table.get n ∧ (x.table.take n).2.get n = ∅
  /-- No empty set is stored. -/
  nonempty : ∀ {n : NodeId} {t : IdSet}, x.table.sets[n]? = some t → t ≠ ∅
  /-- The nodes listed are all that are stored. -/
  size : x.table.size = x.table.keys.length
  isEmpty : x.table.isEmpty = true ↔ ∀ n, y.table n = ∅
  /-- They are listed in ascending order. -/
  keys_ascending : x.table.keys.Pairwise (· < ·)
  /-- They are those with a set that is not empty. -/
  mem_keys : ∀ {n}, n ∈ x.table.keys ↔ (y.table n).Nonempty

/-- Ascending lists are equal when the sets are, so every law of maps is one of stores. -/
theorem Represents.actsAsMap (h : Represents x y) : ActsAsMap x y where
  ascending := h.table.ascending
  mem_get {n o} := by rw [← h.table.toFinset_get, IdSet.mem_toFinset, IdSet.mem_elements]
  report := h.report
  unchanged {op m} hclear hm := by
    have happly := (h.apply op).table
    rw [← IdSet.toFinset_inj (happly.ascending m) (h.table.ascending m), happly.toFinset_get,
      h.table.toFinset_get]
    exact table_apply_mapping_of_ne hclear hm
  grew {op n grew} hn hreport := by
    rw [(h.apply op).table.toFinset_get, h.table.toFinset_get]
    exact report_apply_mapping hn ((h.report op).symm.trans hreport)
  take {n} := ⟨take_fst x.table n, by rw [get_take, if_pos rfl]⟩
  nonempty := h.table.nonempty
  size := h.table.size_eq
  isEmpty := h.table.isEmpty_iff
  keys_ascending := pairwise_keys x.table
  mem_keys := h.table.mem_keys_iff

end Simulation

/-- **Whatever was done to it, a store behaves as a map to finite sets.** After any operations on a
table and registers, the list of each node ascends and holds the elements of the set that the same
operations leave in the map. Each operation changes no set but that of the node it names, and its
report is that this set grew; a set that is taken is handed out as it was and leaves the empty set.
No empty set is ever stored, so the size is the number of nodes listed, which are those with a set
that is not empty, in ascending order. -/
theorem actsAsMap_after (ops : List Operation) :
    ActsAsMap (after listing ops) (after mapping ops) :=
  (represents_after ops).actsAsMap

-- Two objects are moved from one node to another, which is the only one listed afterwards.
example : (after listing [.insert 1 7, .insert 1 4, .take 1 0, .union 2 0]).table.keys = [2] := by
  decide +kernel

end PointsTo.Store
