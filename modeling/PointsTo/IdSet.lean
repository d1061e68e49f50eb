/-!
# Finite sets of identifiers

A set is the list of its elements. Every operation keeps the list strictly ascending; a set that was
read from a text is held as the text listed it, so the operations are total on any list, and each
states what it does there: membership and insertion narrow a window by halves, union and the
intersection test walk both lists once from the front.

## Main definitions

* `IdSet`: a list of elements
* `IdSet.Ascending`: the form that every operation keeps
* `IdSet.insert`, `IdSet.union`: adding one element, adding all elements of another set
* `IdSet.ofList`: the set of the numbers in a list
* `IdSet.contains`, `IdSet.intersects`, `IdSet.isSubset`: the tests
* `IdSet.add`, `IdSet.absorb`: insertion and union, with the report whether the set grew

## Main results

* `ascending_insert`, `ascending_union`, `ascending_ofList`: the operations keep the ascending form
* `mem_insert`, `mem_union`, `mem_ofList`: their elements
-/

namespace PointsTo

/-- A finite set of identifiers, as the list of its elements. -/
structure IdSet where
  /-- The elements; ascending unless the set was read from a text. -/
  elements : List Nat
deriving DecidableEq, Repr, Inhabited

namespace IdSet

/-- The set without elements. -/
def empty : IdSet := ⟨[]⟩

instance : EmptyCollection IdSet := ⟨empty⟩

/-- The set with the one element `x`. -/
def singleton (x : Nat) : IdSet := ⟨[x]⟩

instance : Membership Nat IdSet := ⟨fun s x => x ∈ s.elements⟩

/-- The elements in the order of the list. -/
def toList (s : IdSet) : List Nat := s.elements

/-- The number of elements listed. -/
def size (s : IdSet) : Nat := s.elements.length

/-- Whether nothing is listed. -/
def isEmpty (s : IdSet) : Bool := s.elements.isEmpty

/-- The first element listed: the least one of an ascending set. -/
def first? (s : IdSet) : Option Nat := s.elements.head?

/-- The sum of the elements. -/
def sum (s : IdSet) : Nat := s.elements.foldl (· + ·) 0

/-- Each element is greater than the one before it, so no element is listed twice. -/
def Ascending (s : IdSet) : Prop := s.elements.Pairwise (· < ·)

instance (s : IdSet) : Decidable s.Ascending := inferInstanceAs (Decidable (List.Pairwise _ _))

/-! ## The halving search -/

/-- Halves the window until one element is left: the part before the middle when the middle is
greater than `x`, the part from the middle on otherwise. -/
def narrow (x : Nat) : Nat → List Nat → List Nat
  | 0, window => window
  | steps + 1, window =>
    if window.length ≤ 1 then window
    else
      let half := window.length / 2
      if x < window.getD half 0 then narrow x steps (window.take (window.length - half))
      else narrow x steps (window.drop half)

/-- **Membership**: whether the last window, found by halving, holds `x`. -/
def contains (s : IdSet) (x : Nat) : Bool := narrow x s.size s.elements == [x]

/-- Whether every element of `s` is found in `t`. -/
def isSubset (s t : IdSet) : Bool := s.size ≤ t.size && s.elements.all t.contains

/-! ## Insertion -/

/-- Places `x` before or behind the first element, unless that is `x`. -/
def placeBeside (x : Nat) : List Nat → List Nat
  | [] => [x]
  | y :: ys => if x < y then x :: y :: ys else if y < x then y :: x :: ys else y :: ys

/-- Places `x` beside the element at which the halving search for it ends. -/
def place (x : Nat) : Nat → List Nat → List Nat
  | 0, window => placeBeside x window
  | steps + 1, window =>
    if window.length ≤ 1 then placeBeside x window
    else
      let half := window.length / 2
      let rest := window.length - half
      if x < window.getD half 0 then place x steps (window.take rest) ++ window.drop rest
      else window.take half ++ place x steps (window.drop half)

/-- Adds `x` to the set. -/
def insert (s : IdSet) (x : Nat) : IdSet := ⟨place x s.size s.elements⟩

/-! ## Union and intersection: one walk over both lists -/

/-- Merges `x`, followed by what `rest` merges, with the list: the lesser head goes first, equal
heads go once. -/
def mergeHead (x : Nat) (rest : List Nat → List Nat) : List Nat → List Nat
  | [] => x :: rest []
  | y :: ys =>
    if x < y then x :: rest (y :: ys) else if y < x then y :: mergeHead x rest ys else x :: rest ys

/-- Merges two lists by their heads. -/
def merge (xs : List Nat) : List Nat → List Nat := xs.foldr mergeHead id

/-- **Union**: the elements of either set. -/
def union (s t : IdSet) : IdSet := ⟨merge s.elements t.elements⟩

instance : Union IdSet := ⟨union⟩

/-- Sorts the list by halves, without repetitions; as many steps as the list is long are enough. -/
def sort : Nat → List Nat → List Nat
  | 0, xs => xs
  | steps + 1, xs =>
    if xs.length ≤ 1 then xs
    else
      let half := xs.length / 2
      merge (sort steps (xs.take half)) (sort steps (xs.drop half))

/-- The set of the numbers in a list, which may repeat and come in any order. -/
def ofList (xs : List Nat) : IdSet := ⟨sort xs.length xs⟩

/-- Whether `x`, or else what `rest` finds, meets the list: the lesser head is dropped until two
heads are equal. -/
def meetsHead (x : Nat) (rest : List Nat → Bool) : List Nat → Bool
  | [] => false
  | y :: ys => if x < y then rest (y :: ys) else if y < x then meetsHead x rest ys else true

/-- Whether the walk over both sets meets an element of both. -/
def intersects (s t : IdSet) : Bool := s.elements.foldr meetsHead (fun _ => false) t.elements

/-! ## Growth -/

/-- Adds `x`; tells whether it was absent. -/
def add (s : IdSet) (x : Nat) : IdSet × Bool := (s.insert x, !s.contains x)

/-- Adds the elements of `t`; tells whether the set grew. -/
def absorb (s t : IdSet) : IdSet × Bool := (s ∪ t, s.size < (s ∪ t).size)

@[simp] theorem add_fst (s : IdSet) (x : Nat) : (s.add x).1 = s.insert x := rfl

@[simp] theorem absorb_fst (s t : IdSet) : (s.absorb t).1 = s ∪ t := rfl

/-! ## Elements -/

@[simp] theorem mem_mk (x : Nat) (xs : List Nat) : x ∈ (⟨xs⟩ : IdSet) ↔ x ∈ xs := Iff.rfl

@[simp] theorem mem_elements (x : Nat) (s : IdSet) : x ∈ s.elements ↔ x ∈ s := Iff.rfl

@[simp] theorem not_mem_empty (x : Nat) : ¬ x ∈ (∅ : IdSet) := List.not_mem_nil

@[simp] theorem mem_singleton (x y : Nat) : x ∈ singleton y ↔ x = y := List.mem_singleton

theorem mem_placeBeside (x y : Nat) (window : List Nat) :
    y ∈ placeBeside x window ↔ y = x ∨ y ∈ window := by
  fun_cases placeBeside x window with
  | case1 => simp
  | case2 => simp
  | case3 z zs => simp only [List.mem_cons]; grind
  | case4 z zs h₁ h₂ => simp only [List.mem_cons]; grind

theorem mem_take_or_mem_drop (y k : Nat) (xs : List Nat) :
    y ∈ xs.take k ∨ y ∈ xs.drop k ↔ y ∈ xs := by
  rw [← List.mem_append, List.take_append_drop]

theorem mem_place (x y steps : Nat) (window : List Nat) :
    y ∈ place x steps window ↔ y = x ∨ y ∈ window := by
  induction steps generalizing window with
  | zero => exact mem_placeBeside x y window
  | succ steps ih =>
    rw [place]
    split
    · exact mem_placeBeside x y window
    · dsimp only
      split
      · simp only [List.mem_append, ih, or_assoc, mem_take_or_mem_drop]
      · simp only [List.mem_append, ih, or_left_comm, mem_take_or_mem_drop]

@[simp] theorem mem_insert (s : IdSet) (x y : Nat) : y ∈ s.insert x ↔ y = x ∨ y ∈ s :=
  mem_place x y s.size s.elements

theorem mem_mergeHead (x y : Nat) (xs : List Nat) (rest : List Nat → List Nat)
    (hrest : ∀ ys, y ∈ rest ys ↔ y ∈ xs ∨ y ∈ ys) (ys : List Nat) :
    y ∈ mergeHead x rest ys ↔ y ∈ x :: xs ∨ y ∈ ys := by
  fun_induction mergeHead x rest ys with
  | case1 => simp [hrest]
  | case2 => simp [hrest, or_assoc]
  | case3 z zs _ _ ih => simp only [List.mem_cons, ih]; grind
  | case4 z zs h₁ h₂ =>
    obtain rfl : x = z := by omega
    simp only [List.mem_cons, hrest]; grind

theorem mem_merge (xs ys : List Nat) (y : Nat) : y ∈ merge xs ys ↔ y ∈ xs ∨ y ∈ ys := by
  induction xs generalizing ys with
  | nil => simp [merge]
  | cons x xs ih => exact mem_mergeHead x y xs _ ih ys

@[simp] theorem mem_union (s t : IdSet) (y : Nat) : y ∈ s ∪ t ↔ y ∈ s ∨ y ∈ t :=
  mem_merge s.elements t.elements y

theorem mem_sort (y steps : Nat) (xs : List Nat) : y ∈ sort steps xs ↔ y ∈ xs := by
  induction steps generalizing xs with
  | zero => rfl
  | succ steps ih =>
    rw [sort]
    split
    · rfl
    · simp only [mem_merge, ih, mem_take_or_mem_drop]

@[simp] theorem mem_ofList (xs : List Nat) (y : Nat) : y ∈ ofList xs ↔ y ∈ xs :=
  mem_sort y xs.length xs

/-! ## The ascending form -/

@[simp] theorem ascending_empty : Ascending ∅ := List.Pairwise.nil

@[simp] theorem ascending_singleton (x : Nat) : Ascending (singleton x) :=
  List.pairwise_singleton _ _

theorem ascending_placeBeside (x : Nat) {window : List Nat} (h : window.length ≤ 1) :
    (placeBeside x window).Pairwise (· < ·) := by
  obtain _ | ⟨y, _ | ⟨z, zs⟩⟩ := window
  · exact List.pairwise_singleton _ _
  · rw [placeBeside]
    split
    · simpa
    · split
      · simpa
      · exact List.pairwise_singleton _ _
  · simp at h

/-- What stands before an element of an ascending window is less. -/
theorem lt_getD_of_mem_take {window : List Nat} (h : window.Pairwise (· < ·)) {i y : Nat}
    (hi : i < window.length) (hy : y ∈ window.take i) : y < window.getD i 0 := by
  obtain ⟨j, hj, rfl⟩ := List.mem_take_iff_getElem.mp hy
  rw [← List.getElem_eq_getD 0 (h := hi)]
  exact List.pairwise_iff_getElem.mp h j i _ hi (by omega)

/-- What stands at an element of an ascending window or behind it is no less. -/
theorem getD_le_of_mem_drop {window : List Nat} (h : window.Pairwise (· < ·)) {i k y : Nat}
    (hik : i ≤ k) (hy : y ∈ window.drop k) : window.getD i 0 ≤ y := by
  obtain ⟨j, hj, rfl⟩ := List.mem_drop_iff_getElem.mp hy
  rw [← List.getElem_eq_getD 0 (h := by omega)]
  rcases Nat.eq_or_lt_of_le (show i ≤ k + j by omega) with heq | hlt
  · simp only [heq, Nat.le_refl]
  · exact Nat.le_of_lt (List.pairwise_iff_getElem.mp h i (k + j) _ (by omega) hlt)

/-- The part that the search drops stays on its side of `x`, so all that is placed ascends. -/
theorem ascending_place (x steps : Nat) {window : List Nat} (h : window.Pairwise (· < ·))
    (hsteps : window.length ≤ steps + 1) : (place x steps window).Pairwise (· < ·) := by
  induction steps generalizing window with
  | zero => exact ascending_placeBeside x hsteps
  | succ steps ih =>
    have hsplit : ∀ k, (window.take k ++ window.drop k).Pairwise (· < ·) := by
      intro k
      rwa [List.take_append_drop]
    rw [place]
    split
    · exact ascending_placeBeside x ‹_›
    · dsimp only
      split
      · rename_i hlt
        obtain ⟨htake, hdrop, hcross⟩ :=
          List.pairwise_append.mp (hsplit (window.length - window.length / 2))
        refine List.pairwise_append.mpr ⟨ih htake (by rw [List.length_take]; omega), hdrop, ?_⟩
        intro a ha b hb
        rcases (mem_place ..).mp ha with rfl | ha
        · exact Nat.lt_of_lt_of_le hlt (getD_le_of_mem_drop h (by omega) hb)
        · exact hcross a ha b hb
      · rename_i hge
        obtain ⟨htake, hdrop, hcross⟩ := List.pairwise_append.mp (hsplit (window.length / 2))
        refine List.pairwise_append.mpr ⟨htake, ih hdrop (by rw [List.length_drop]; omega), ?_⟩
        intro a ha b hb
        rcases (mem_place ..).mp hb with rfl | hb
        · exact Nat.lt_of_lt_of_le (lt_getD_of_mem_take h (by omega) ha) (Nat.le_of_not_lt hge)
        · exact hcross a ha b hb

theorem ascending_insert {s : IdSet} (h : s.Ascending) (x : Nat) : (s.insert x).Ascending :=
  ascending_place x s.size h (Nat.le_succ _)

theorem ascending_mergeHead (x : Nat) (xs : List Nat) (rest : List Nat → List Nat)
    (hx : ∀ y ∈ xs, x < y) (hmem : ∀ ys y, y ∈ rest ys ↔ y ∈ xs ∨ y ∈ ys)
    (hrest : ∀ ys, ys.Pairwise (· < ·) → (rest ys).Pairwise (· < ·)) (ys : List Nat)
    (hys : ys.Pairwise (· < ·)) : (mergeHead x rest ys).Pairwise (· < ·) := by
  fun_induction mergeHead x rest ys with
  | case1 =>
    refine List.pairwise_cons.2 ⟨fun y hy => ?_, hrest [] hys⟩
    exact hx y (by simpa [hmem] using hy)
  | case2 z zs hxz =>
    have hz := (List.pairwise_cons.1 hys).1
    refine List.pairwise_cons.2 ⟨fun y hy => ?_, hrest _ hys⟩
    rw [hmem, List.mem_cons] at hy
    obtain hy | rfl | hy := hy
    · exact hx y hy
    · exact hxz
    · exact Nat.lt_trans hxz (hz y hy)
  | case3 z zs _ hzx ih =>
    obtain ⟨hz, hzs⟩ := List.pairwise_cons.1 hys
    refine List.pairwise_cons.2 ⟨fun y hy => ?_, ih hzs⟩
    rw [mem_mergeHead x y xs rest (fun ys => hmem ys y), List.mem_cons] at hy
    obtain (rfl | hy) | hy := hy
    · exact hzx
    · exact Nat.lt_trans hzx (hx y hy)
    · exact hz y hy
  | case4 z zs h₁ h₂ =>
    obtain rfl : x = z := by omega
    obtain ⟨hz, hzs⟩ := List.pairwise_cons.1 hys
    refine List.pairwise_cons.2 ⟨fun y hy => ?_, hrest _ hzs⟩
    rw [hmem] at hy
    exact hy.elim (hx y) (hz y)

theorem ascending_merge {xs ys : List Nat} (hx : xs.Pairwise (· < ·)) (hy : ys.Pairwise (· < ·)) :
    (merge xs ys).Pairwise (· < ·) := by
  induction xs generalizing ys with
  | nil => exact hy
  | cons x xs ih =>
    obtain ⟨hhead, htail⟩ := List.pairwise_cons.1 hx
    exact ascending_mergeHead x xs _ hhead (fun ys y => mem_merge xs ys y)
      (fun _ h => ih htail h) ys hy

theorem ascending_union {s t : IdSet} (hs : s.Ascending) (ht : t.Ascending) :
    (s ∪ t).Ascending :=
  ascending_merge hs ht

theorem pairwise_of_length_le_one {xs : List Nat} (h : xs.length ≤ 1) :
    xs.Pairwise (· < ·) := by
  obtain _ | ⟨x, _ | ⟨y, ys⟩⟩ := xs
  · exact List.Pairwise.nil
  · exact List.pairwise_singleton _ _
  · simp at h

/-- A list of one element ascends, and merging keeps that. -/
theorem ascending_sort (steps : Nat) {xs : List Nat} (h : xs.length ≤ steps + 1) :
    (sort steps xs).Pairwise (· < ·) := by
  induction steps generalizing xs with
  | zero => exact pairwise_of_length_le_one h
  | succ steps ih =>
    rw [sort]
    split
    · exact pairwise_of_length_le_one ‹_›
    · refine ascending_merge (ih ?_) (ih ?_)
      · rw [List.length_take]
        omega
      · rw [List.length_drop]
        omega

theorem ascending_ofList (xs : List Nat) : (ofList xs).Ascending :=
  ascending_sort xs.length (Nat.le_succ _)

end IdSet

end PointsTo
