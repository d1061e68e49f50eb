import PointsTo.Proofs.IdSet

/-!
# Sets as they are listed

A set that was read from a text lists its elements in any order and as often as the text does. The
halving search and the walk over two sets still find nothing that is not listed, and the walk does
not care which set comes first. What they may do is miss an element. Without repetitions they miss
none exactly if the listing ascends: the search ends further behind for greater numbers, so numbers
that are all found stand in their order; the walk passes every element below the one looked for, so
a greater one in front of it hides it.

## Main definitions

* `EndsAt`: where the halving search for a number ends

## Main results

* `intersects_comm`: the walk does not care which set comes first
* `mem_of_contains`, `exists_mem_of_intersects`: nothing is found that is not listed
* `exists_endsAt_le`: the searches for two numbers end in the order of the numbers
* `ascending_iff_contains`: without repetitions, the search misses nothing if the listing ascends
* `ascending_iff_intersects`: so does the walk
-/

namespace PointsTo.IdSet

variable {s t : IdSet} {x y : Nat}

/-! ## The walk over two sets -/

theorem intersects_nil (s : IdSet) : s.intersects ⟨[]⟩ = false := by
  obtain ⟨_ | ⟨x, xs⟩⟩ := s <;> rfl

theorem intersects_cons (x y : Nat) (xs ys : List Nat) :
    intersects ⟨x :: xs⟩ ⟨y :: ys⟩ =
      if x < y then intersects ⟨xs⟩ ⟨y :: ys⟩
      else if y < x then intersects ⟨x :: xs⟩ ⟨ys⟩ else true := rfl

/-- **The walk does not care which set comes first.** The heads are compared alike from both sides,
and the walk goes on behind the lesser one. -/
theorem intersects_comm (s t : IdSet) : s.intersects t = t.intersects s := by
  obtain ⟨xs⟩ := s
  obtain ⟨ys⟩ := t
  induction xs generalizing ys with
  | nil => exact (intersects_nil ⟨ys⟩).symm
  | cons x xs ihx =>
    induction ys with
    | nil => exact intersects_nil ⟨x :: xs⟩
    | cons y ys ihy =>
      rw [intersects_cons, intersects_cons]
      rcases Nat.lt_trichotomy x y with hlt | rfl | hlt
      · rw [if_pos hlt, if_neg (Nat.lt_asymm hlt), if_pos hlt]
        exact ihx (y :: ys)
      · rw [if_neg (Nat.lt_irrefl x), if_neg (Nat.lt_irrefl x), if_neg (Nat.lt_irrefl x),
          if_neg (Nat.lt_irrefl x)]
      · rw [if_neg (Nat.lt_asymm hlt), if_pos hlt, if_pos hlt]
        exact ihy

/-- **What the walk meets is listed in both sets.** -/
theorem exists_mem_of_intersects (h : s.intersects t = true) : ∃ x, x ∈ s ∧ x ∈ t := by
  obtain ⟨xs⟩ := s
  obtain ⟨ys⟩ := t
  induction xs generalizing ys with
  | nil => cases h
  | cons x xs ihx =>
    induction ys with
    | nil => rw [intersects_nil] at h; cases h
    | cons y ys ihy =>
      rw [intersects_cons] at h
      rcases Nat.lt_trichotomy x y with hlt | rfl | hlt
      · rw [if_pos hlt] at h
        obtain ⟨z, hzx, hzy⟩ := ihx (y :: ys) h
        exact ⟨z, List.mem_cons_of_mem x hzx, hzy⟩
      · exact ⟨x, List.mem_cons_self, List.mem_cons_self⟩
      · rw [if_neg (Nat.lt_asymm hlt), if_pos hlt] at h
        obtain ⟨z, hzx, hzy⟩ := ihy h
        exact ⟨z, hzx, List.mem_cons_of_mem y hzy⟩

/-- The walk meets a single element if it is the first one that is not below it. -/
theorem intersects_singleton :
    s.intersects (.singleton x) = true ↔ s.elements.find? (x ≤ ·) = some x := by
  obtain ⟨xs⟩ := s
  induction xs with
  | nil => simp [intersects]
  | cons y ys ih =>
    change intersects ⟨y :: ys⟩ ⟨[x]⟩ = true ↔ _
    rw [intersects_cons]
    rcases Nat.lt_trichotomy y x with hlt | rfl | hlt
    · rw [if_pos hlt, List.find?_cons_of_neg (by simpa using hlt)]
      exact ih
    · simp
    · rw [if_neg (Nat.lt_asymm hlt), if_pos hlt, intersects_nil,
        List.find?_cons_of_pos (by simpa using Nat.le_of_lt hlt), Option.some.injEq]
      simpa using Nat.ne_of_gt hlt

/-! ## The halving search -/

/-- The search for `x` ends at the index `i` of the window. -/
def EndsAt (x steps : Nat) (window : List Nat) (i : Nat) : Prop :=
  ∃ u, window[i]? = some u ∧ narrow x steps window = [u]

section Search

variable {steps i : Nat} {window : List Nat}

theorem endsAt_of_length_eq_one (h : window.length = 1) : EndsAt x steps window 0 := by
  obtain ⟨u, rfl⟩ := List.length_eq_one_iff.mp h
  refine ⟨u, rfl, ?_⟩
  cases steps with
  | zero => rfl
  | succ steps => rw [narrow, if_pos (Nat.le_of_eq h)]

/-- A search that goes on before the middle ends no further than the middle. -/
theorem EndsAt.before (hlt : x < window.getD (window.length / 2) 0) (hone : 1 < window.length)
    (h : EndsAt x steps (window.take (window.length - window.length / 2)) i) :
    i ≤ window.length / 2 ∧ EndsAt x (steps + 1) window i := by
  obtain ⟨u, hu, hend⟩ := h
  have hi := List.length_take_le _ _ |>.trans_lt' (List.getElem?_eq_some_iff.mp hu).1
  rw [List.getElem?_take_of_lt hi] at hu
  refine ⟨by omega, u, hu, ?_⟩
  rw [narrow, if_neg (Nat.not_le_of_lt hone), if_pos hlt, hend]

/-- A search that goes on from the middle ends there or behind it. -/
theorem EndsAt.behind (hle : ¬ x < window.getD (window.length / 2) 0) (hone : 1 < window.length)
    (h : EndsAt x steps (window.drop (window.length / 2)) i) :
    EndsAt x (steps + 1) window (window.length / 2 + i) := by
  obtain ⟨u, hu, hend⟩ := h
  rw [List.getElem?_drop] at hu
  refine ⟨u, hu, ?_⟩
  rw [narrow, if_neg (Nat.not_le_of_lt hone), if_neg hle, hend]

/-- **The searches for two numbers end in the order of the numbers.** -/
theorem exists_endsAt_le (hxy : x ≤ y) (steps : Nat) (hpos : 0 < window.length)
    (hsteps : window.length ≤ steps + 1) :
    ∃ i j, i ≤ j ∧ EndsAt x steps window i ∧ EndsAt y steps window j := by
  induction steps generalizing window x y with
  | zero =>
    have hone : window.length = 1 := Nat.le_antisymm hsteps hpos
    exact ⟨0, 0, Nat.le_refl 0, endsAt_of_length_eq_one hone, endsAt_of_length_eq_one hone⟩
  | succ steps ih =>
    by_cases hone : 1 < window.length
    · have hbefore : ∀ {x y}, x ≤ y → ∃ i j, i ≤ j ∧
          EndsAt x steps (window.take (window.length - window.length / 2)) i ∧
          EndsAt y steps (window.take (window.length - window.length / 2)) j :=
        fun hxy => ih hxy (by rw [List.length_take]; omega) (by rw [List.length_take]; omega)
      have hbehind : ∀ {x y}, x ≤ y → ∃ i j, i ≤ j ∧
          EndsAt x steps (window.drop (window.length / 2)) i ∧
          EndsAt y steps (window.drop (window.length / 2)) j :=
        fun hxy => ih hxy (by rw [List.length_drop]; omega) (by rw [List.length_drop]; omega)
      by_cases hx : x < window.getD (window.length / 2) 0
      · by_cases hy : y < window.getD (window.length / 2) 0
        · obtain ⟨i, j, hij, hi, hj⟩ := hbefore hxy
          exact ⟨i, j, hij, (hi.before hx hone).2, (hj.before hy hone).2⟩
        · obtain ⟨i, -, -, hi, -⟩ := hbefore (Nat.le_refl x)
          obtain ⟨j, -, -, hj, -⟩ := hbehind (Nat.le_refl y)
          obtain ⟨hmiddle, hi⟩ := hi.before hx hone
          exact ⟨i, window.length / 2 + j, by omega, hi, hj.behind hy hone⟩
      · have hy : ¬ y < window.getD (window.length / 2) 0 := by omega
        obtain ⟨i, j, hij, hi, hj⟩ := hbehind hxy
        exact ⟨_, _, Nat.add_le_add_left hij _, hi.behind hx hone, hj.behind hy hone⟩
    · have hone : window.length = 1 := by omega
      exact ⟨0, 0, Nat.le_refl 0, endsAt_of_length_eq_one hone, endsAt_of_length_eq_one hone⟩

end Search

/-- Where the search ends, what is found stands. -/
theorem EndsAt.getElem? {i : Nat} (h : EndsAt x s.size s.elements i) (hx : s.contains x = true) :
    s.elements[i]? = some x := by
  obtain ⟨u, hu, hend⟩ := h
  rw [contains, beq_iff_eq, hend] at hx
  rw [hu, List.head_eq_of_cons_eq hx]

theorem length_pos_of_contains (h : s.contains x = true) : 0 < s.elements.length := by
  obtain ⟨_ | ⟨y, ys⟩⟩ := s
  · cases h
  · exact Nat.succ_pos _

/-- **What the search finds is listed.** -/
theorem mem_of_contains (h : s.contains x = true) : x ∈ s := by
  obtain ⟨i, -, -, hi, -⟩ := exists_endsAt_le (Nat.le_refl x) s.size
    (length_pos_of_contains h) (Nat.le_succ _)
  exact List.mem_of_getElem? (hi.getElem? h)

/-! ## Listings without repetitions -/

/-- **Without repetitions, the search misses nothing exactly if the listing ascends.** -/
theorem ascending_iff_contains (h : s.elements.Nodup) :
    s.Ascending ↔ ∀ x ∈ s, s.contains x = true := by
  constructor
  · exact fun hs x hx => (contains_iff_mem hs).mpr hx
  · intro hfound
    refine List.pairwise_iff_getElem.mpr fun i j hi hj hij => ?_
    by_contra hle
    obtain ⟨k, l, hkl, hk, hl⟩ := exists_endsAt_le (Nat.le_of_not_lt hle) s.size
      (Nat.zero_lt_of_lt hi) (Nat.le_succ _)
    have hk := hk.getElem? (hfound _ (List.getElem_mem hj))
    have hl := hl.getElem? (hfound _ (List.getElem_mem hi))
    obtain rfl : j = k := (List.getElem?_inj hj h).mp (by rw [hk, List.getElem?_eq_getElem hj])
    obtain rfl : i = l := (List.getElem?_inj hi h).mp (by rw [hl, List.getElem?_eq_getElem hi])
    exact Nat.not_lt_of_le hkl hij

/-- **Without repetitions, the walk misses no single element exactly if the listing ascends.** -/
theorem ascending_iff_intersects (h : s.elements.Nodup) :
    s.Ascending ↔ ∀ x ∈ s, s.intersects (.singleton x) = true := by
  constructor
  · exact fun hs x hx => (intersects_iff hs (ascending_singleton x)).mpr
      ⟨x, hx, (mem_singleton x x).mpr rfl⟩
  · intro hfound
    refine List.pairwise_iff_getElem.mpr fun i j hi hj hij => ?_
    by_contra hle
    obtain ⟨-, k, hk, heq, hbelow⟩ := List.find?_eq_some_iff_getElem.mp
      (intersects_singleton.mp (hfound _ (List.getElem_mem hj)))
    obtain rfl : k = j := h.getElem_inj_iff.mp heq
    have hlt := hbelow i hij
    simp only [Bool.not_eq_true', decide_eq_false_iff_not] at hlt
    exact hlt (Nat.le_of_not_lt hle)

end PointsTo.IdSet
