import PointsTo.Partition
import PointsTo.Proofs.IdSet

/-!
# Valid partitions

A partition is valid when every representative represents itself and the list of a class holds
exactly the nodes of that class. Merging keeps both, and relabels precisely the absorbed class.

## Main definitions

* `Partition.Valid`: representatives and member lists agree

## Main results

* `find_absorb`: merging relabels the absorbed class and nothing else
* `Valid.absorb`: merging keeps a partition valid
* `countClasses_absorb`: merging two classes that both meet a universe lowers the number of classes
  that it meets by one
* `countClasses_congr_of_mem`, `countClasses_congr`: that number is the same for partitions that
  split the universe alike, such as partitions with the same classes
-/

namespace PointsTo.Partition

variable {p : Partition} {lost survivor : NodeId}

/-- Representatives represent themselves, and each class lists exactly its nodes. -/
structure Valid (p : Partition) : Prop where
  /-- A representative represents itself. -/
  find_find : ∀ n, p.find (p.find n) = p.find n
  /-- The list of a representative holds the nodes of its class. -/
  mem_classOf : ∀ {r n}, p.find r = r → (n ∈ p.classOf r ↔ p.find n = r)

theorem valid_empty : (∅ : Partition).Valid where
  find_find n := by simp
  mem_classOf _ := by simp

theorem Valid.subsume (h : p.Valid) (n sub : NodeId) : (p.subsume n sub).Valid :=
  ⟨h.find_find, h.mem_classOf⟩

/-! ## Merging -/

/-- Listing nodes under one value overrides their entries alone. -/
theorem getD_foldl_insert (moved : List NodeId) (table : Std.ExtTreeMap NodeId NodeId)
    (survivor n fallback : NodeId) :
    (moved.foldl (fun table n => table.insert n survivor) table).getD n fallback =
      if n ∈ moved then survivor else table.getD n fallback := by
  induction moved generalizing table with
  | nil => simp
  | cons m moved ih =>
    rw [List.foldl_cons, ih, Std.ExtTreeMap.getD_insert]
    by_cases hn : n ∈ moved
    · simp [hn]
    · simp [hn, eq_comm (a := m)]

/-- **Merging relabels the absorbed class**: its nodes are represented by the survivor, and every
other node keeps its representative. The nodes relabelled are those listed, and a valid partition
lists the class. -/
theorem find_absorb (h : p.Valid) (hlost : p.find lost = lost) (survivor n : NodeId) :
    (p.absorb lost survivor).find n = if p.find n = lost then survivor else p.find n := by
  change (List.foldl _ p.representatives (p.classOf lost)).getD n n = _
  rw [getD_foldl_insert]
  by_cases hn : p.find n = lost
  · rw [if_pos hn, if_pos ((h.mem_classOf hlost).mpr hn)]
  · rw [if_neg hn, if_neg (mt (h.mem_classOf hlost).mp hn), find]

theorem classOf_absorb (lost survivor n : NodeId) :
    (p.absorb lost survivor).classOf n =
      if n = survivor then p.classOf survivor ++ p.classOf lost
      else if n = lost then [n] else p.classOf n := by
  simp only [classOf, absorb, moved, Std.ExtTreeMap.getD_insert, Std.ExtTreeMap.getD_erase,
    Std.LawfulEqCmp.compare_eq_iff_eq, eq_comm (b := n)]

/-- A class that takes no part in a merge keeps its members. -/
theorem classMembers_absorb_of_ne (h : p.Valid) (hlost : p.find lost = lost) {n : NodeId}
    (hnl : p.find n ≠ lost) (hns : p.find n ≠ survivor) :
    (p.absorb lost survivor).classMembers n = p.classMembers n := by
  rw [classMembers, find_absorb h hlost, if_neg hnl, classOf_absorb, if_neg hns, if_neg hnl,
    classMembers]

/-- **Merging keeps a partition valid.** -/
theorem Valid.absorb (h : p.Valid) (hlost : p.find lost = lost)
    (hsurvivor : p.find survivor = survivor) (hne : lost ≠ survivor) :
    (p.absorb lost survivor).Valid := by
  have hfind := find_absorb h hlost survivor
  refine ⟨fun n => ?_, fun {r n} hr => ?_⟩
  · rw [hfind n]
    by_cases hn : p.find n = lost
    · rw [if_pos hn, hfind, hsurvivor, if_neg hne.symm]
    · rw [if_neg hn, hfind, h.find_find, if_neg hn]
  · rw [classOf_absorb, hfind n]
    by_cases hrs : r = survivor
    · subst hrs
      rw [if_pos rfl, List.mem_append, h.mem_classOf hsurvivor, h.mem_classOf hlost]
      by_cases hn : p.find n = lost <;> simp [hn]
    · have hrl : r ≠ lost := by
        rintro rfl
        rw [hfind, hlost, if_pos rfl] at hr
        exact hne hr.symm
      have hrep : p.find r = r := by
        rw [hfind] at hr
        by_cases hc : p.find r = lost
        · rw [if_pos hc] at hr
          exact absurd hr.symm hrs
        · rwa [if_neg hc] at hr
      rw [if_neg hrs, if_neg hrl, h.mem_classOf hrep]
      by_cases hn : p.find n = lost
      · simp [hn, Ne.symm hrl, Ne.symm hrs]
      · simp [hn]

/-- A merge keeps one of the two representatives and absorbs the other. -/
theorem union_of_ne {a b : NodeId} (h : p.find a ≠ p.find b) (policy : SurvivorPolicy) :
    ∃ lost survivor,
      (lost = p.find a ∧ survivor = p.find b ∨ lost = p.find b ∧ survivor = p.find a) ∧
      p.union a b policy = (p.absorb lost survivor, ⟨survivor, some lost⟩) := by
  rw [union_of_find_ne h]
  split
  · exact ⟨_, _, .inl ⟨rfl, rfl⟩, rfl⟩
  · exact ⟨_, _, .inr ⟨rfl, rfl⟩, rfl⟩

/-! ## Counting classes -/

theorem countClasses_eq_card (p : Partition) (nodes : List NodeId) :
    p.countClasses nodes = (nodes.toFinset.image p.find).card := by
  rw [countClasses, representativesOf, IdSet.size_ofList]
  congr 1
  ext r
  simp

/-- Partitions that split a universe alike meet it in the same number of classes. Each class that
`p` meets goes to the class of `q` with the same nodes of the universe. -/
theorem countClasses_congr_of_mem {q : Partition} (nodes : List NodeId)
    (h : ∀ x ∈ nodes, ∀ y ∈ nodes, p.find x = p.find y ↔ q.find x = q.find y) :
    p.countClasses nodes = q.countClasses nodes := by
  rw [countClasses_eq_card, countClasses_eq_card]
  simp only [← List.mem_toFinset (l := nodes)] at h
  refine Finset.card_bij (fun r hr => q.find (Finset.mem_image.mp hr).choose) ?_ ?_ ?_
  · intro r hr
    exact Finset.mem_image_of_mem _ (Finset.mem_image.mp hr).choose_spec.1
  · intro r hr r' hr' heq
    obtain ⟨hn, hfind⟩ := (Finset.mem_image.mp hr).choose_spec
    obtain ⟨hn', hfind'⟩ := (Finset.mem_image.mp hr').choose_spec
    rw [← hfind, ← hfind']
    exact (h _ hn _ hn').mpr heq
  · intro r hr
    obtain ⟨n, hn, rfl⟩ := Finset.mem_image.mp hr
    have hpn : p.find n ∈ nodes.toFinset.image p.find := Finset.mem_image_of_mem _ hn
    obtain ⟨hm, hfind⟩ := (Finset.mem_image.mp hpn).choose_spec
    exact ⟨p.find n, hpn, (h _ hm _ hn).mp hfind⟩

/-- Partitions with the same classes meet a universe in the same number of classes. -/
theorem countClasses_congr {q : Partition} (nodes : List NodeId)
    (h : ∀ x y, p.find x = p.find y ↔ q.find x = q.find y) :
    p.countClasses nodes = q.countClasses nodes :=
  countClasses_congr_of_mem nodes fun x _ y _ => h x y

theorem countClasses_le (p : Partition) (nodes : List NodeId) :
    p.countClasses nodes ≤ nodes.length := by
  rw [countClasses_eq_card]
  exact Finset.card_image_le.trans (List.toFinset_card_le nodes)

/-- A universe that is not empty meets a class. -/
theorem countClasses_pos (p : Partition) {nodes : List NodeId} {n : NodeId} (hn : n ∈ nodes) :
    0 < p.countClasses nodes := by
  rw [countClasses_eq_card, Finset.card_pos]
  exact ⟨p.find n, Finset.mem_image_of_mem _ (List.mem_toFinset.mpr hn)⟩

/-- One more node meets at most one more class. -/
theorem countClasses_range_succ_le (p : Partition) (n : Nat) :
    p.countClasses (List.range (n + 1)) ≤ p.countClasses (List.range n) + 1 := by
  rw [countClasses_eq_card, countClasses_eq_card, List.range_succ, List.toFinset_append,
    Finset.image_union]
  refine (Finset.card_union_le _ _).trans (Nat.add_le_add_left ?_ _)
  simp

/-- A node that is alone in its class counts as one more class. -/
theorem countClasses_range_succ {n : Nat} (hn : p.find n = n) (hother : ∀ m < n, p.find m ≠ n) :
    p.countClasses (List.range (n + 1)) = p.countClasses (List.range n) + 1 := by
  have hfresh : n ∉ (List.range n).toFinset.image p.find := by
    intro hmem
    obtain ⟨m, hm, hmn⟩ := Finset.mem_image.mp hmem
    exact hother m (List.mem_range.mp (List.mem_toFinset.mp hm)) hmn
  rw [countClasses_eq_card, countClasses_eq_card, List.range_succ, List.toFinset_append,
    Finset.image_union]
  simp [hn, hfresh]

theorem countClasses_empty (n : Nat) : (∅ : Partition).countClasses (List.range n) = n := by
  induction n with
  | zero => rfl
  | succ n ih =>
    rw [countClasses_range_succ (find_empty n), ih]
    intro m hm
    rw [find_empty]
    exact Nat.ne_of_lt hm

/-- **Merging two classes that both meet a universe** lowers the number of classes by one. The
classes met are those from before but the absorbed one. -/
theorem countClasses_absorb (h : p.Valid) (hlost : p.find lost = lost)
    (hne : lost ≠ survivor) {nodes : List NodeId} {a b : NodeId} (ha : a ∈ nodes) (hb : b ∈ nodes)
    (hpa : p.find a = lost) (hpb : p.find b = survivor) :
    (p.absorb lost survivor).countClasses nodes + 1 = p.countClasses nodes := by
  have himage : nodes.toFinset.image (p.absorb lost survivor).find =
      (nodes.toFinset.image p.find).erase lost := by
    ext r
    simp only [Finset.mem_image, Finset.mem_erase, List.mem_toFinset]
    constructor
    · rintro ⟨n, hn, rfl⟩
      rw [find_absorb h hlost]
      by_cases hc : p.find n = lost
      · rw [if_pos hc]
        exact ⟨hne.symm, b, hb, hpb⟩
      · rw [if_neg hc]
        exact ⟨hc, n, hn, rfl⟩
    · rintro ⟨hr, n, hn, rfl⟩
      exact ⟨n, hn, by rw [find_absorb h hlost, if_neg hr]⟩
  have hmem : lost ∈ nodes.toFinset.image p.find :=
    Finset.mem_image.mpr ⟨a, List.mem_toFinset.mpr ha, hpa⟩
  rw [countClasses_eq_card, countClasses_eq_card, himage, Finset.card_erase_add_one hmem]

end PointsTo.Partition
