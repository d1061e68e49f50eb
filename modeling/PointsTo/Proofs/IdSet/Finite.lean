import Mathlib.Data.Finset.Max
import Mathlib.Data.List.Induction
import Mathlib.Logic.Function.Basic
import Mathlib.Order.Bounds.Basic
import PointsTo.Proofs.IdSet

/-!
# Ascending sets are finite sets

An ascending list is one of many ways to hold a finite set. Here both are held in numbered
registers, and the same operations are applied to them: the walks and searches on lists on one side,
the operations of finite sets on the other. The two never come apart: every report is the same, and
every question about the lists is answered by the finite sets.

## Main definitions

* `toFinset`: the finite set of the elements
* `Sets`: what can be done to sets, whatever holds them
* `listed`, `finite`: ascending lists and finite sets
* `Operation`, `after`: operations on registers, and the registers after a list of operations
* `Represents`: each list ascends and has the elements of the finite set
* `Refines`: so the operations and the questions agree

## Main results

* `snd_add_iff`, `snd_absorb_iff`: the reports of insertion and union
* `isSubset_iff`, `first?_eq_some_iff`: the questions that look at one element after the other
* `Represents.apply`, `represents_after`: an operation keeps the two together, and so does a list
* `refines_after`: whatever was done to them, ascending lists behave as finite sets
-/

namespace PointsTo.IdSet

variable {s t : IdSet} {x : Nat}

/-! ## The finite set of the elements -/

/-- The finite set of the elements. -/
def toFinset (s : IdSet) : Finset Nat := s.elements.toFinset

@[simp] theorem mem_toFinset : x ∈ s.toFinset ↔ x ∈ s := List.mem_toFinset

@[simp] theorem toFinset_empty : (∅ : IdSet).toFinset = ∅ := rfl

@[simp] theorem toFinset_singleton (x : Nat) : (singleton x).toFinset = {x} := rfl

@[simp] theorem toFinset_ofList (xs : List Nat) : (ofList xs).toFinset = xs.toFinset := by
  ext x
  simp

@[simp] theorem toFinset_insert (s : IdSet) (x : Nat) :
    (s.insert x).toFinset = Insert.insert x s.toFinset := by
  ext y
  simp

@[simp] theorem toFinset_union (s t : IdSet) : (s ∪ t).toFinset = s.toFinset ∪ t.toFinset := by
  ext y
  simp

theorem Ascending.size_eq_card (h : s.Ascending) : s.size = s.toFinset.card :=
  (List.toFinset_card_of_nodup (h.imp Nat.ne_of_lt)).symm

/-! ## Reports -/

theorem snd_add_iff (h : s.Ascending) : (s.add x).2 = true ↔ x ∉ s.toFinset := by
  rw [add, Bool.not_eq_true', ← Bool.not_eq_true, contains_iff_mem h, mem_toFinset]

/-- The union is longer exactly when it has an element more. -/
theorem snd_absorb_iff (hs : s.Ascending) (ht : t.Ascending) :
    (s.absorb t).2 = true ↔ s.toFinset ⊂ s.toFinset ∪ t.toFinset := by
  have hsub : s.toFinset ⊆ s.toFinset ∪ t.toFinset := Finset.subset_union_left
  rw [absorb, decide_eq_true_iff, hs.size_eq_card, (ascending_union hs ht).size_eq_card,
    toFinset_union]
  constructor
  · intro hlt
    refine Finset.ssubset_iff_subset_ne.mpr ⟨hsub, ?_⟩
    intro heq
    rw [← heq] at hlt
    exact Nat.lt_irrefl _ hlt
  · exact Finset.card_lt_card

/-! ## Questions -/

/-- Every element is looked for in the other set, unless that has too few. A subset never has more,
so the comparison of sizes refuses none. -/
theorem isSubset_iff (hs : s.Ascending) (ht : t.Ascending) :
    s.isSubset t = true ↔ s.toFinset ⊆ t.toFinset := by
  have hall : s.elements.all t.contains = true ↔ s.toFinset ⊆ t.toFinset := by
    rw [List.all_eq_true]
    constructor
    · intro h x hx
      exact mem_toFinset.mpr ((contains_iff_mem ht).mp (h x (mem_toFinset.mp hx)))
    · intro h x hx
      exact (contains_iff_mem ht).mpr (mem_toFinset.mp (h (mem_toFinset.mpr hx)))
  rw [isSubset, Bool.and_eq_true, decide_eq_true_iff, hall, hs.size_eq_card, ht.size_eq_card]
  exact and_iff_right_of_imp Finset.card_le_card

theorem isEmpty_iff_toFinset : s.isEmpty = true ↔ s.toFinset = ∅ := by
  rw [isEmpty_iff, Finset.eq_empty_iff_forall_notMem]
  simp only [mem_toFinset]

/-- The first element of an ascending list is below all others. -/
theorem first?_eq_some_iff (h : s.Ascending) :
    s.first? = some x ↔ IsLeast (s.toFinset : Set Nat) x := by
  obtain ⟨xs⟩ := s
  cases xs with
  | nil =>
    constructor
    · intro hfirst
      cases hfirst
    · intro hleast
      exact absurd (mem_toFinset.mp hleast.1) (not_mem_empty x)
  | cons y ys =>
    have hy : IsLeast ((⟨y :: ys⟩ : IdSet).toFinset : Set Nat) y := by
      refine ⟨mem_toFinset.mpr List.mem_cons_self, ?_⟩
      intro z hz
      rcases List.mem_cons.mp (mem_toFinset.mp hz) with rfl | hz
      · exact Nat.le_refl z
      · exact Nat.le_of_lt ((List.pairwise_cons.mp h).1 z hz)
    constructor
    · intro hfirst
      rw [← Option.some.inj hfirst]
      exact hy
    · intro hx
      rw [hx.unique hy]
      rfl

theorem first?_eq_none_iff : s.first? = none ↔ s.toFinset = ∅ := by
  rw [← isEmpty_iff_toFinset, isEmpty, List.isEmpty_iff]
  exact List.head?_eq_none_iff

theorem toFinset_inj (hs : s.Ascending) (ht : t.Ascending) :
    s.toFinset = t.toFinset ↔ s = t := by
  refine ⟨fun heq => eq_of_mem_iff hs ht fun x => ?_, congrArg toFinset⟩
  rw [← mem_toFinset, heq, mem_toFinset]

/-! ## Operations on registers -/

/-- What can be done to sets, whatever holds them. Adding an element and adding a set come with a
report. -/
structure Sets (α : Type) where
  empty : α
  singleton : Nat → α
  ofList : List Nat → α
  add : α → Nat → α × Bool
  absorb : α → α → α × Bool

/-- Sets as lists. -/
def listed : Sets IdSet where
  empty := ∅
  singleton := singleton
  ofList := ofList
  add := add
  absorb := absorb

/-- **Finite sets**: an insertion reports that the element was absent, a union that the set grew. -/
def finite : Sets (Finset Nat) where
  empty := ∅
  singleton x := {x}
  ofList xs := xs.toFinset
  add s x := (Insert.insert x s, x ∉ s)
  absorb s t := (s ∪ t, s ⊂ s ∪ t)

/-- What can be done to sets in numbered registers. -/
inductive Operation where
  | new (r : Nat)
  | singleton (r x : Nat)
  | ofList (r : Nat) (xs : List Nat)
  | insert (r x : Nat)
  | clear (r : Nat)
  | union (r other : Nat)
deriving DecidableEq, Repr

/-- The registers after the operation, with its report if it makes one. -/
def Operation.apply {α : Type} (S : Sets α) (registers : Nat → α) :
    Operation → (Nat → α) × Option Bool
  | new r | clear r => (Function.update registers r S.empty, none)
  | singleton r x => (Function.update registers r (S.singleton x), none)
  | ofList r xs => (Function.update registers r (S.ofList xs), none)
  | insert r x =>
    (Function.update registers r (S.add (registers r) x).1, some (S.add (registers r) x).2)
  | union r other =>
    (Function.update registers r (S.absorb (registers r) (registers other)).1,
      some (S.absorb (registers r) (registers other)).2)

/-- The registers after the operations; all are empty at first. -/
def after {α : Type} (S : Sets α) (ops : List Operation) : Nat → α :=
  ops.foldl (fun registers op => (op.apply S registers).1) fun _ => S.empty

theorem after_append_singleton {α : Type} (S : Sets α) (ops : List Operation) (op : Operation) :
    after S (ops ++ [op]) = (op.apply S (after S ops)).1 := by
  simp [after]

/-! ## The simulation -/

section Simulation

variable {lists : Nat → IdSet} {sets : Nat → Finset Nat}

/-- **Each list ascends and has the elements of the finite set** in the same register. -/
def Represents (lists : Nat → IdSet) (sets : Nat → Finset Nat) : Prop :=
  ∀ r, (lists r).Ascending ∧ (lists r).toFinset = sets r

theorem Represents.update (h : Represents lists sets) (r : Nat) {S : Finset Nat}
    (hs : s.Ascending) (heq : s.toFinset = S) :
    Represents (Function.update lists r s) (Function.update sets r S) := by
  intro i
  by_cases hi : i = r
  · subst hi
    rw [Function.update_self, Function.update_self]
    exact ⟨hs, heq⟩
  · rw [Function.update_of_ne hi, Function.update_of_ne hi]
    exact h i

/-- **An operation keeps lists and finite sets together.** -/
theorem Represents.apply (h : Represents lists sets) (op : Operation) :
    Represents (op.apply listed lists).1 (op.apply finite sets).1 := by
  cases op with
  | new r => exact h.update r ascending_empty toFinset_empty
  | singleton r x => exact h.update r (ascending_singleton x) (toFinset_singleton x)
  | ofList r xs => exact h.update r (ascending_ofList xs) (toFinset_ofList xs)
  | insert r x =>
    have heq : ((lists r).insert x).toFinset = Insert.insert x (sets r) := by
      rw [toFinset_insert, (h r).2]
    exact h.update r (ascending_insert (h r).1 x) heq
  | clear r => exact h.update r ascending_empty toFinset_empty
  | union r other =>
    have heq : (lists r ∪ lists other).toFinset = sets r ∪ sets other := by
      rw [toFinset_union, (h r).2, (h other).2]
    exact h.update r (ascending_union (h r).1 (h other).1) heq

theorem represents_after (ops : List Operation) :
    Represents (after listed ops) (after finite ops) := by
  induction ops using List.reverseRecOn with
  | nil => exact fun _ => ⟨ascending_empty, toFinset_empty⟩
  | append_singleton ops op ih =>
    rw [after_append_singleton, after_append_singleton]
    exact ih.apply op

/-- Every operation makes the same report on both sides. The two are different tests, of which one
holds exactly when the other does. -/
theorem Represents.report (h : Represents lists sets) (op : Operation) :
    (op.apply listed lists).2 = (op.apply finite sets).2 := by
  cases op with
  | new r | singleton r x | ofList r xs | clear r => rfl
  | insert r x =>
    refine congrArg some (Bool.eq_iff_iff.mpr ?_)
    rw [← (h r).2]
    exact (snd_add_iff (h r).1).trans decide_eq_true_iff.symm
  | union r other =>
    refine congrArg some (Bool.eq_iff_iff.mpr ?_)
    rw [← (h r).2, ← (h other).2]
    exact (snd_absorb_iff (h r).1 (h other).1).trans decide_eq_true_iff.symm

/-- **Lists behave as finite sets**: they ascend and have the same elements, every operation makes
the same report, and every question is answered by the finite sets. -/
structure Refines (lists : Nat → IdSet) (sets : Nat → Finset Nat) : Prop where
  ascending : ∀ r, (lists r).elements.Pairwise (· < ·)
  mem : ∀ {r x}, x ∈ (lists r).elements ↔ x ∈ sets r
  report : ∀ op : Operation, (op.apply listed lists).2 = (op.apply finite sets).2
  contains : ∀ {r x}, (lists r).contains x = true ↔ x ∈ sets r
  intersects : ∀ {r i}, (lists r).intersects (lists i) = true ↔ (sets r ∩ sets i).Nonempty
  isSubset : ∀ {r i}, (lists r).isSubset (lists i) = true ↔ sets r ⊆ sets i
  size : ∀ {r}, (lists r).size = (sets r).card
  isEmpty : ∀ {r}, (lists r).isEmpty = true ↔ sets r = ∅
  first? : ∀ {r x}, (lists r).first? = some x ↔ IsLeast (sets r : Set Nat) x
  first?_none : ∀ {r}, (lists r).first? = none ↔ sets r = ∅
  eq : ∀ {r i}, lists r = lists i ↔ sets r = sets i

theorem Represents.refines (h : Represents lists sets) : Refines lists sets where
  ascending r := (h r).1
  mem {r x} := by rw [← (h r).2, mem_toFinset, mem_elements]
  report := h.report
  contains {r x} := by rw [contains_iff_mem (h r).1, ← (h r).2, mem_toFinset]
  intersects {r i} := by
    rw [intersects_iff (h r).1 (h i).1, ← (h r).2, ← (h i).2]
    simp only [Finset.Nonempty, Finset.mem_inter, mem_toFinset]
  isSubset {r i} := by rw [isSubset_iff (h r).1 (h i).1, (h r).2, (h i).2]
  size {r} := by rw [(h r).1.size_eq_card, (h r).2]
  isEmpty {r} := by rw [isEmpty_iff_toFinset, (h r).2]
  first? {r x} := by rw [first?_eq_some_iff (h r).1, (h r).2]
  first?_none {r} := by rw [first?_eq_none_iff, (h r).2]
  eq {r i} := by rw [← toFinset_inj (h r).1 (h i).1, (h r).2, (h i).2]

end Simulation

/-- **Whatever was done to them, ascending lists behave as finite sets.** After any operations on
registers, each list ascends strictly and holds the elements that the operations of finite sets
leave there; an insertion reports that the element was absent and a union that the set grew; the
questions are membership, common elements, inclusion, number, emptiness and least element; and two
lists are equal exactly when they hold the same elements. -/
theorem refines_after (ops : List Operation) : Refines (after listed ops) (after finite ops) :=
  (represents_after ops).refines

end PointsTo.IdSet
