import Mathlib.Data.Finset.Card
import Mathlib.Data.List.GetD
import PointsTo.IdSet

/-!
# Ascending sets of identifiers

An ascending set is determined by its elements, and the halving search finds exactly them. The
search never looks at most of the list: what carries the proof is that each half it drops holds only
elements on the wrong side of the one it looked at. For this, elements may repeat but not descend.

## Main definitions

* `Ordered`: no element is less than one listed before it

## Main results

* `contains_iff_mem`: on an ascending set, the halving search is membership
* `intersects_iff`: on ascending sets, the walk from both fronts meets a common element if there is
  one
* `Ordered.contains_iff_mem`, `Ordered.intersects_iff`: so it is on ordered sets
* `eq_of_mem_iff`: ascending sets with the same elements are equal
* `size_ofList`: the size of the set of a list is the number of its distinct entries
-/

namespace PointsTo.IdSet

/-- No element is less than one listed before it; elements may repeat. -/
def Ordered (s : IdSet) : Prop := s.elements.Pairwise (· ≤ ·)

instance (s : IdSet) : Decidable s.Ordered := inferInstanceAs (Decidable (List.Pairwise _ _))

theorem Ascending.ordered {s : IdSet} (h : s.Ascending) : s.Ordered := h.imp Nat.le_of_lt

/-! ## The halving search -/

/-- The part of an ordered window before its middle holds every element below the middle. -/
theorem mem_take_of_lt {x : Nat} {window : List Nat} (h : window.Pairwise (· ≤ ·)) {i k : Nat}
    (hi : i < window.length) (hik : i ≤ k) (hlt : x < window.getD i 0) (hx : x ∈ window) :
    x ∈ window.take k := by
  obtain ⟨j, hj, rfl⟩ := List.getElem_of_mem hx
  rw [List.getD_eq_getElem _ _ hi] at hlt
  have hji : j < i := by
    by_contra hle
    rcases Nat.eq_or_lt_of_le (Nat.le_of_not_lt hle) with rfl | hij
    · exact Nat.lt_irrefl _ hlt
    · exact Nat.not_lt_of_le (List.pairwise_iff_getElem.mp h i j hi hj hij) hlt
  exact List.mem_take_iff_getElem.mpr ⟨j, by omega, rfl⟩

/-- The part of an ordered window from its middle on holds every element from the middle on. -/
theorem mem_drop_of_le {x : Nat} {window : List Nat} (h : window.Pairwise (· ≤ ·)) {i : Nat}
    (hi : i < window.length) (hle : window.getD i 0 ≤ x) (hx : x ∈ window) :
    x ∈ window.drop i := by
  obtain ⟨j, hj, rfl⟩ := List.getElem_of_mem hx
  rw [List.getD_eq_getElem _ _ hi] at hle
  by_cases hij : i ≤ j
  · refine List.mem_drop_iff_getElem.mpr ⟨j - i, by omega, ?_⟩
    simp [Nat.add_sub_cancel' hij]
  · have hge := List.pairwise_iff_getElem.mp h j i hj hi (Nat.lt_of_not_le hij)
    refine List.mem_drop_iff_getElem.mpr ⟨0, by omega, ?_⟩
    simpa using Nat.le_antisymm hle hge

/-- Halving an ordered window keeps the element looked for. Either half is ordered again, and the
half that is dropped is on the wrong side of the middle. -/
theorem mem_narrow {x : Nat} (steps : Nat) {window : List Nat} (h : window.Pairwise (· ≤ ·)) :
    x ∈ narrow x steps window ↔ x ∈ window := by
  induction steps generalizing window with
  | zero => rfl
  | succ steps ih =>
    rw [narrow]
    by_cases hone : window.length ≤ 1
    · rw [if_pos hone]
    · rw [if_neg hone]
      have hhalf : window.length / 2 < window.length := by omega
      by_cases hlt : x < window.getD (window.length / 2) 0
      · rw [if_pos hlt, ih (h.sublist (List.take_sublist _ _))]
        exact ⟨List.mem_of_mem_take, mem_take_of_lt h hhalf (by omega) hlt⟩
      · rw [if_neg hlt, ih (h.sublist (List.drop_sublist _ _))]
        exact ⟨List.mem_of_mem_drop, mem_drop_of_le h hhalf (Nat.le_of_not_lt hlt)⟩

/-- As many steps as the window has elements leave at most one element. -/
theorem length_narrow_le (x steps : Nat) (window : List Nat) (h : window.length ≤ steps + 1) :
    (narrow x steps window).length ≤ 1 := by
  induction steps generalizing window with
  | zero => exact h
  | succ steps ih =>
    rw [narrow]
    by_cases hone : window.length ≤ 1
    · rw [if_pos hone]
      exact hone
    · rw [if_neg hone]
      dsimp only
      split
      · exact ih _ (by rw [List.length_take]; omega)
      · exact ih _ (by rw [List.length_drop]; omega)

/-- The halving search is membership on an ordered set. -/
theorem Ordered.contains_iff_mem {s : IdSet} (h : s.Ordered) {x : Nat} :
    s.contains x = true ↔ x ∈ s := by
  have hmem : x ∈ narrow x s.size s.elements ↔ x ∈ s := mem_narrow s.size h
  have hlen : (narrow x s.size s.elements).length ≤ 1 :=
    length_narrow_le x s.size s.elements (Nat.le_succ _)
  rw [contains, beq_iff_eq, ← hmem]
  constructor
  · intro heq
    rw [heq]
    exact List.mem_singleton_self x
  · intro hx
    cases hw : narrow x s.size s.elements with
    | nil => rw [hw] at hx; cases hx
    | cons y ys =>
      rw [hw, List.length_cons] at hlen
      obtain rfl : ys = [] := List.length_eq_zero_iff.mp (by omega)
      rw [hw, List.mem_singleton] at hx
      rw [hx]

/-- **The halving search is membership** on an ascending set. -/
theorem contains_iff_mem {s : IdSet} (h : s.Ascending) {x : Nat} : s.contains x = true ↔ x ∈ s :=
  h.ordered.contains_iff_mem

/-! ## The walk over two sets -/

/-- What a walk finds with one more element in front. -/
theorem meetsHead_iff {x : Nat} {xs : List Nat} {rest : List Nat → Bool} (hx : ∀ y ∈ xs, x ≤ y)
    (hrest : ∀ ys, ys.Pairwise (· ≤ ·) → (rest ys = true ↔ ∃ y ∈ xs, y ∈ ys)) {ys : List Nat}
    (hys : ys.Pairwise (· ≤ ·)) : meetsHead x rest ys = true ↔ ∃ y ∈ x :: xs, y ∈ ys := by
  fun_induction meetsHead x rest ys with
  | case1 => simp
  | case2 z zs hxz =>
    have hnot : ¬ x ∈ z :: zs := by
      have hz := (List.pairwise_cons.mp hys).1
      intro hmem
      rcases List.mem_cons.mp hmem with rfl | hmem
      · exact Nat.lt_irrefl x hxz
      · exact Nat.not_lt_of_le (hz x hmem) hxz
    rw [hrest _ hys, List.exists_mem_cons_iff, or_iff_right hnot]
  | case3 z zs _ hzx ih =>
    have hnot : ¬ z ∈ x :: xs := by
      intro hmem
      rcases List.mem_cons.mp hmem with rfl | hmem
      · exact Nat.lt_irrefl z hzx
      · exact Nat.not_lt_of_le (hx z hmem) hzx
    rw [ih (List.pairwise_cons.mp hys).2]
    constructor
    · rintro ⟨y, hy, hzs⟩
      exact ⟨y, hy, List.mem_cons_of_mem z hzs⟩
    · rintro ⟨y, hy, hzs⟩
      rcases List.mem_cons.mp hzs with rfl | hzs
      · exact absurd hy hnot
      · exact ⟨y, hy, hzs⟩
  | case4 z zs hxz hzx =>
    obtain rfl : x = z := Nat.le_antisymm (Nat.le_of_not_lt hzx) (Nat.le_of_not_lt hxz)
    simp

/-- The walk meets a common element if there is one, on ordered sets. -/
theorem Ordered.intersects_iff {s t : IdSet} (hs : s.Ordered) (ht : t.Ordered) :
    s.intersects t = true ↔ ∃ x, x ∈ s ∧ x ∈ t := by
  obtain ⟨xs⟩ := s
  obtain ⟨ys⟩ := t
  change xs.Pairwise (· ≤ ·) at hs
  change ys.Pairwise (· ≤ ·) at ht
  change xs.foldr meetsHead (fun _ => false) ys = true ↔ ∃ x ∈ xs, x ∈ ys
  induction xs generalizing ys with
  | nil => simp
  | cons x xs ih =>
    obtain ⟨hx, hxs⟩ := List.pairwise_cons.mp hs
    exact meetsHead_iff hx (fun ys hys => ih ys hxs hys) ht

/-- **The walk meets a common element if there is one**, on ascending sets. -/
theorem intersects_iff {s t : IdSet} (hs : s.Ascending) (ht : t.Ascending) :
    s.intersects t = true ↔ ∃ x, x ∈ s ∧ x ∈ t :=
  hs.ordered.intersects_iff ht.ordered

/-! ## Sets by their elements -/

/-- **An ascending set is determined by its elements.** Without repetitions, lists with the same
elements are permutations, and of these only one ascends. -/
theorem eq_of_mem_iff {s t : IdSet} (hs : s.Ascending) (ht : t.Ascending)
    (h : ∀ x, x ∈ s ↔ x ∈ t) : s = t := by
  obtain ⟨xs⟩ := s
  obtain ⟨ys⟩ := t
  have hperm : xs.Perm ys :=
    (List.perm_ext_iff_of_nodup (hs.imp Nat.ne_of_lt) (ht.imp Nat.ne_of_lt)).mpr h
  exact congrArg IdSet.mk
    (hperm.eq_of_pairwise (fun _ _ _ _ hab hba => absurd hab (Nat.lt_asymm hba)) hs ht)

/-- An ascending set is the set of its elements. -/
theorem ofList_toList {s : IdSet} (h : s.Ascending) : ofList s.toList = s :=
  eq_of_mem_iff (ascending_ofList _) h fun _ => mem_ofList _ _

/-- The set of a list has as many elements as the list has distinct entries. -/
theorem size_ofList (xs : List Nat) : (ofList xs).size = xs.toFinset.card := by
  have hnodup : (ofList xs).elements.Nodup := (ascending_ofList xs).imp Nat.ne_of_lt
  rw [size, ← List.toFinset_card_of_nodup hnodup]
  congr 1
  ext x
  rw [List.mem_toFinset, List.mem_toFinset, mem_elements, mem_ofList]

theorem isEmpty_iff {s : IdSet} : s.isEmpty = true ↔ ∀ x, ¬ x ∈ s := by
  rw [isEmpty, List.isEmpty_iff, List.eq_nil_iff_forall_not_mem]
  rfl

theorem eq_empty_of_isEmpty {s : IdSet} (h : s.isEmpty = true) : s = ∅ := by
  obtain ⟨xs⟩ := s
  obtain rfl : xs = [] := List.isEmpty_iff.mp h
  rfl

theorem exists_singleton_of_size {s : IdSet} (h : s.size = 1) : ∃ x, s = singleton x := by
  obtain ⟨xs⟩ := s
  obtain ⟨x, rfl⟩ := List.length_eq_one_iff.mp h
  exact ⟨x, rfl⟩

/-- A set with no more than one element is the set of any element that it has. -/
theorem eq_singleton_of_size_le {s : IdSet} {x : Nat} (h : s.size ≤ 1) (hx : x ∈ s) :
    s = singleton x := by
  have hone : s.size = 1 := Nat.le_antisymm h (List.length_pos_of_mem hx)
  obtain ⟨y, rfl⟩ := exists_singleton_of_size hone
  rw [(mem_singleton x y).mp hx]

end PointsTo.IdSet
