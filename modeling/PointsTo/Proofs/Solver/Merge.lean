import PointsTo.Proofs.Partition
import PointsTo.Solver.Merge

/-!
# What a merge does to the solver

Both ways of merging come down to one step, `Solver.join`: a representative absorbs another one. The
step is described field by field here, through the classes, the points-to sets and the constraints
that wait at each class, and nothing after this module unfolds it.

## Main definitions

* `Solver.Same`: two nodes share a class
* `Solver.edgesOf`: the constraints that wait at a representative
* `Solver.join`: one class absorbs another

## Main results

* `representative_join`, `mem_get_join`, `loaded_join`: classes, sets and loaded nodes after a merge
* `unify_cases`: a unification changes nothing or joins two classes and makes the survivor wait
* `mergeInto_cases`: the same for a merge with a given survivor
-/

namespace PointsTo

/-! ## Constraints that wait at a class -/

namespace ClassEdges

@[simp] theorem copies_append (a b : ClassEdges) : (a ++ b).copies = a.copies ++ b.copies := rfl

@[simp] theorem geps_append (a b : ClassEdges) : (a ++ b).geps = a.geps ++ b.geps := rfl

@[simp] theorem loads_append (a b : ClassEdges) : (a ++ b).loads = a.loads ++ b.loads := rfl

@[simp] theorem stores_append (a b : ClassEdges) : (a ++ b).stores = a.stores ++ b.stores := rfl

@[simp] theorem append_empty (a : ClassEdges) : a ++ ({} : ClassEdges) = a := by
  obtain ⟨copies, geps, loads, stores⟩ := a
  change ClassEdges.mk (copies ++ []) (geps ++ []) (loads ++ []) (stores ++ []) = _
  simp only [List.append_nil]

end ClassEdges

namespace Solver

variable {s : Solver} {lost survivor n m r a b x y o : NodeId}

/-- Whether two nodes share a class. -/
def Same (s : Solver) (x y : NodeId) : Prop := s.representative x = s.representative y

/-- The constraints that wait at a representative. -/
def edgesOf (s : Solver) (r : NodeId) : ClassEdges := s.edges.getD r {}

theorem Same.refl (s : Solver) (x : NodeId) : s.Same x x := rfl

theorem Same.symm (h : s.Same x y) : s.Same y x := Eq.symm h

theorem Same.trans {z : NodeId} (h₁ : s.Same x y) (h₂ : s.Same y z) : s.Same x z := Eq.trans h₁ h₂

theorem same_representative (h : s.classes.Valid) (n : NodeId) : s.Same n (s.representative n) :=
  (h.find_find n).symm

theorem representative_congr {t : Solver} (h : t.classes = s.classes) (n : NodeId) :
    t.representative n = s.representative n := by
  rw [representative, h, representative]

theorem same_congr {t : Solver} (h : t.classes = s.classes) : t.Same x y ↔ s.Same x y := by
  rw [Same, representative_congr h, representative_congr h, Same]

theorem mem_pointsTo : o ∈ s.pointsTo n ↔ o ∈ s.store.get (s.representative n) := Iff.rfl

/-! ## The parts of a merge -/

theorem loadEdges_eq (s : Solver) (n : NodeId) :
    s.loadEdges n =
      { s with loaded := (s.loadEdges n).loaded, edges := (s.loadEdges n).edges } := by
  unfold loadEdges
  split <;> rfl

theorem loaded_loadEdges :
    (s.loadEdges n).loaded.contains m = true ↔ m = n ∨ s.loaded.contains m = true := by
  unfold loadEdges
  split
  · rename_i hn
    constructor
    · exact Or.inr
    · rintro (rfl | hm)
      · exact hn
      · exact hm
  · simp [eq_comm (a := n)]

theorem edgesOf_loadEdges (s : Solver) (n r : NodeId) :
    (s.loadEdges n).edgesOf r =
      if r = s.representative n ∧ ¬ s.loaded.contains n = true then
        s.edgesOf r ++ s.graph.edgesAt n
      else s.edgesOf r := by
  unfold loadEdges
  by_cases hn : s.loaded.contains n = true
  · simp [hn]
  · by_cases hr : r = s.representative n
    · simp [hn, hr, edgesOf]
    · simp [hn, hr, edgesOf, Std.ExtTreeMap.getD_insert, Ne.symm hr]

theorem moveEdges_eq (s : Solver) (lost survivor : NodeId) :
    s.moveEdges lost survivor = { s with edges := (s.moveEdges lost survivor).edges } := by
  unfold moveEdges
  split <;> rfl

theorem edgesOf_moveEdges (s : Solver) (hne : lost ≠ survivor) (r : NodeId) :
    (s.moveEdges lost survivor).edgesOf r =
      if r = survivor then s.edgesOf survivor ++ s.edgesOf lost
      else if r = lost then {} else s.edgesOf r := by
  unfold moveEdges
  split
  · rename_i hnone
    have hempty : s.edgesOf lost = {} := by
      rw [edgesOf, Std.ExtTreeMap.getD_eq_getD_getElem?, hnone, Option.getD_none]
    rw [hempty, ClassEdges.append_empty]
    by_cases hrs : r = survivor
    · rw [if_pos hrs, hrs]
    · by_cases hrl : r = lost
      · rw [if_neg hrs, if_pos hrl, hrl, hempty]
      · rw [if_neg hrs, if_neg hrl]
  · rename_i moved hsome
    have hmoved : s.edgesOf lost = moved := by
      rw [edgesOf, Std.ExtTreeMap.getD_eq_getD_getElem?, hsome, Option.getD_some]
    rw [hmoved]
    simp only [edgesOf, Std.ExtTreeMap.getD_insert, Std.ExtTreeMap.getD_erase,
      Std.LawfulEqCmp.compare_eq_iff_eq, eq_comm (b := r), if_neg hne]

theorem mem_get_moveSet (s : Solver) (hne : lost ≠ survivor) :
    o ∈ (s.moveSet lost survivor).store.get r ↔
      if r = survivor then o ∈ s.store.get survivor ∨ o ∈ s.store.get lost
      else r ≠ lost ∧ o ∈ s.store.get r := by
  have hempty : (s.store.get lost).isEmpty = true → ¬ o ∈ s.store.get lost := fun he =>
    IdSet.isEmpty_iff.mp he o
  change o ∈ ((s.store.take lost).2.union survivor (s.store.get lost)).1.get r ↔ _
  rw [Store.get_union]
  by_cases hrs : r = survivor
  · subst hrs
    by_cases he : (s.store.get lost).isEmpty = true
    · simp [he, hempty he, hne.symm]
    · simp [he, hne.symm]
  · rw [if_neg fun h => hrs h.1, if_neg hrs, Store.get_take]
    by_cases hrl : r = lost
    · simp [hrl]
    · simp [hrl]

/-! ## The merge -/

/-- **One class absorbs another**: both arguments represent their classes. -/
def join (s : Solver) (lost survivor : NodeId) : Solver :=
  { s with classes := s.classes.absorb lost survivor }.absorb lost survivor

/-- The state of a merge before the constraints of the two representatives join the class. -/
def relabel (s : Solver) (lost survivor : NodeId) : Solver :=
  ({ s with classes := s.classes.absorb lost survivor }.moveSet lost survivor).moveEdges
    lost survivor

theorem relabel_eq (s : Solver) (lost survivor : NodeId) :
    s.relabel lost survivor =
      { s with
        classes := s.classes.absorb lost survivor
        store := (s.moveSet lost survivor).store
        edges := (s.relabel lost survivor).edges } := by
  unfold relabel
  rw [moveEdges_eq]
  rfl

theorem join_eq_relabel (s : Solver) (lost survivor : NodeId) :
    s.join lost survivor =
      (((s.relabel lost survivor).loadEdges lost).loadEdges survivor).countMerge lost survivor :=
  rfl

theorem join_eq (s : Solver) (lost survivor : NodeId) :
    s.join lost survivor =
      { s with
        classes := s.classes.absorb lost survivor
        store := (s.moveSet lost survivor).store
        edges := (s.join lost survivor).edges
        loaded := (s.join lost survivor).loaded
        counters := { s.counters with merges := s.counters.merges + 1 }
        journal := .classesMerged lost survivor :: s.journal } := by
  have hlost := loadEdges_eq (s.relabel lost survivor) lost
  have hsurvivor := loadEdges_eq ((s.relabel lost survivor).loadEdges lost) survivor
  rw [join_eq_relabel, hsurvivor, hlost, relabel_eq]
  rfl

theorem representative_relabel (h : s.classes.Valid) (hlost : s.representative lost = lost)
    (survivor n : NodeId) :
    (s.relabel lost survivor).representative n =
      if s.representative n = lost then survivor else s.representative n := by
  rw [relabel_eq]
  exact Partition.find_absorb h hlost survivor n

theorem edgesOf_relabel (s : Solver) (hne : lost ≠ survivor) (r : NodeId) :
    (s.relabel lost survivor).edgesOf r =
      if r = survivor then s.edgesOf survivor ++ s.edgesOf lost
      else if r = lost then {} else s.edgesOf r :=
  edgesOf_moveEdges _ hne r

/-- **Classes after a merge.** -/
theorem representative_join (h : s.classes.Valid) (hlost : s.representative lost = lost)
    (survivor n : NodeId) :
    (s.join lost survivor).representative n =
      if s.representative n = lost then survivor else s.representative n := by
  rw [join_eq]
  exact Partition.find_absorb h hlost survivor n

/-- Nodes that shared a class still do after a merge. -/
theorem Same.join (h : s.classes.Valid) (hlost : s.representative lost = lost)
    (survivor : NodeId) (hxy : s.Same x y) : (s.join lost survivor).Same x y := by
  unfold Same at hxy ⊢
  rw [representative_join h hlost, representative_join h hlost, hxy]

/-- **Sets after a merge**: that of the survivor is the union of the two, the absorbed one is gone,
and all others are as before. -/
theorem mem_get_join (s : Solver) (hne : lost ≠ survivor) :
    o ∈ (s.join lost survivor).store.get r ↔
      if r = survivor then o ∈ s.store.get survivor ∨ o ∈ s.store.get lost
      else r ≠ lost ∧ o ∈ s.store.get r := by
  rw [join_eq]
  exact mem_get_moveSet s hne

/-- The nodes whose constraints joined their class, after a merge. -/
theorem loaded_join :
    (s.join lost survivor).loaded.contains n = true ↔
      n = survivor ∨ n = lost ∨ s.loaded.contains n = true := by
  rw [join_eq_relabel]
  change
    (((s.relabel lost survivor).loadEdges lost).loadEdges survivor).loaded.contains n = true ↔ _
  rw [loaded_loadEdges, loaded_loadEdges, relabel_eq]

/-! ## The two ways of merging -/

/-- The two representatives of a merge, in the order in which one absorbs the other. -/
structure Joinable (s : Solver) (a b lost survivor : NodeId) : Prop where
  /-- One of the two is merged away. -/
  pair : lost = s.representative a ∧ survivor = s.representative b ∨
    lost = s.representative b ∧ survivor = s.representative a
  /-- The classes are different ones. -/
  ne : lost ≠ survivor

namespace Joinable

theorem lost_eq (h : s.Joinable a b lost survivor) (hv : s.classes.Valid) :
    s.representative lost = lost := by
  rcases h.pair with ⟨rfl, -⟩ | ⟨rfl, -⟩ <;> exact hv.find_find _

theorem survivor_eq (h : s.Joinable a b lost survivor) (hv : s.classes.Valid) :
    s.representative survivor = survivor := by
  rcases h.pair with ⟨-, rfl⟩ | ⟨-, rfl⟩ <;> exact hv.find_find _

/-- After the merge the two nodes share a class. -/
theorem same (h : s.Joinable a b lost survivor) (hv : s.classes.Valid) :
    (s.join lost survivor).Same a b := by
  have hlost := h.lost_eq hv
  unfold Same
  rw [representative_join hv hlost, representative_join hv hlost]
  rcases h.pair with ⟨ha, hb⟩ | ⟨hb, ha⟩
  · rw [if_pos ha.symm, ← hb, if_neg h.ne.symm]
  · rw [if_pos hb.symm, ← ha, if_neg h.ne.symm]

/-- Nodes that share a class after the merge shared one before, or belong to the two classes.
Whichever class is absorbed, two nodes agree after it only if both or neither were in it, or if one
was and the other belongs to the survivor. -/
theorem same_cases (h : s.Joinable a b lost survivor) (hv : s.classes.Valid)
    (hxy : (s.join lost survivor).Same x y) :
    s.Same x y ∨ (s.Same x a ∧ s.Same b y) ∨ (s.Same x b ∧ s.Same a y) := by
  have hlost := h.lost_eq hv
  unfold Same at hxy ⊢
  rw [representative_join hv hlost, representative_join hv hlost] at hxy
  rcases h.pair with ⟨rfl, rfl⟩ | ⟨rfl, rfl⟩ <;> split_ifs at hxy with hx hy hy
  all_goals simp_all

end Joinable

/-- **A unification** changes nothing, or joins two classes and makes the survivor wait. -/
theorem unify_cases (s : Solver) (a b : NodeId) :
    (s.Same a b ∧ (s.unify a b).1 = s) ∨
      ∃ lost survivor, s.Joinable a b lost survivor ∧
        (s.unify a b).1 = ((s.join lost survivor).enqueue survivor).1 := by
  by_cases hab : s.classes.find a = s.classes.find b
  · refine .inl ⟨hab, ?_⟩
    unfold unify
    rw [Partition.union_of_find_eq hab]
  · obtain ⟨lost, survivor, hpair, hunion⟩ :=
      Partition.union_of_ne hab s.settings.representativePolicy
    refine .inr ⟨lost, survivor, ⟨hpair, ?_⟩, ?_⟩
    · rcases hpair with ⟨rfl, rfl⟩ | ⟨rfl, rfl⟩
      · exact hab
      · exact fun h => hab h.symm
    · unfold unify
      rw [hunion]
      rfl

/-- **A merge with a given survivor** changes nothing or joins two classes. -/
theorem mergeInto_cases (s : Solver) (n m : NodeId) :
    (s.Same n m ∧ (s.mergeInto n m).1 = s) ∨
      s.Joinable n m (s.representative n) (s.representative m) ∧
        (s.mergeInto n m).1 = s.join (s.representative n) (s.representative m) := by
  by_cases hnm : s.classes.find n = s.classes.find m
  · refine .inl ⟨hnm, ?_⟩
    simp [mergeInto, Partition.mergeInto, hnm]
  · refine .inr ⟨⟨.inl ⟨rfl, rfl⟩, hnm⟩, ?_⟩
    simp [mergeInto, Partition.mergeInto, hnm, join, representative]

end Solver

end PointsTo
