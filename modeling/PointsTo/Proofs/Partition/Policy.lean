import Mathlib.Algebra.Order.BigOperators.Group.Finset
import Mathlib.Data.List.TakeWhile
import Mathlib.Data.Nat.Log
import Mathlib.Data.Set.Card
import PointsTo.Proofs.Partition.Run

/-!
# Runs under one policy

Which pairs are merged decides the classes, whoever survives. What the policy decides is the
representative and the work. If the lesser representative survives every merge, each class is
represented by its least member, so the representatives follow from the classes. If the larger class
survives, a node changes its representative only when its class at least doubles, so the entries
written over a whole run are few.

## Main definitions

* `unions`: the merges of pairs in order, all under one policy
* `Canonical`: no node is less than its representative
* `Operation.relabelled`, `rewrites`: the entries that an operation writes, and their number in a
  run
* `changes`: how often the representative of a node changes in a run

## Main results

* `Canonical.isLeast_find`: then every class is represented by its least member
* `canonical_run`: merging by the lesser representative keeps that
* `pow_changes_le_classSize`: a class has doubled with every change of its representative
* `rewrites_eq_sum_changes`: every entry written changes the representative of its node
* `rewrites_le_mul_log`: merging by the larger class writes few entries
* `unions_largerClass_cost`: how often a representative changes, and what a whole run writes
-/

namespace PointsTo.Partition

variable {p : Partition} {policy : SurvivorPolicy} {pairs : List (NodeId × NodeId)}
  {lost survivor a b x y : NodeId}

/-! ## Merging pairs -/

/-- The merges of the pairs, in order, all under one policy. -/
def unions (policy : SurvivorPolicy) (pairs : List (NodeId × NodeId)) : List Operation :=
  pairs.map fun pair => .union pair.1 pair.2 policy

theorem unions_append_singleton (policy : SurvivorPolicy) (pairs : List (NodeId × NodeId))
    (pair : NodeId × NodeId) :
    unions policy (pairs ++ [pair]) = unions policy pairs ++ [.union pair.1 pair.2 policy] := by
  simp [unions]

/-- Nothing is cleared, so all pairs count. -/
theorem paired_unions : Paired (unions policy pairs) a b ↔ (a, b) ∈ pairs := by
  have hall : sinceClear (unions policy pairs) = (unions policy pairs).reverse := by
    refine List.takeWhile_eq_self_iff.mpr fun op hop => ?_
    obtain ⟨pair, -, rfl⟩ := List.mem_map.mp (List.mem_reverse.mp hop)
    rfl
  rw [Paired, hall]
  constructor
  · rintro ⟨op, hop, hpair⟩
    obtain ⟨pair, hmem, rfl⟩ := List.mem_map.mp (List.mem_reverse.mp hop)
    rwa [← Option.some.inj hpair]
  · intro hmem
    exact ⟨.union a b policy, List.mem_reverse.mpr (List.mem_map.mpr ⟨(a, b), hmem, rfl⟩), rfl⟩

/-- Two nodes share a class exactly when the pairs connect them. -/
theorem find_eq_iff_unions :
    (run (unions policy pairs)).find x = (run (unions policy pairs)).find y ↔
      Relation.EqvGen (fun a b => (a, b) ∈ pairs) x y := by
  have hpaired : Paired (unions policy pairs) = fun a b => (a, b) ∈ pairs := by
    funext a b
    exact propext paired_unions
  rw [find_eq_iff_run, hpaired]

/-! ## The lesser representative survives -/

/-- **No node is less than its representative.** -/
def Canonical (p : Partition) : Prop := ∀ n, p.find n ≤ n

theorem canonical_empty : (∅ : Partition).Canonical := fun n => Nat.le_of_eq (find_empty n)

theorem Canonical.absorb (h : p.Canonical) (hp : p.Valid) (hlost : p.find lost = lost)
    (hlt : survivor < lost) : (p.absorb lost survivor).Canonical := by
  intro n
  rw [find_absorb hp hlost]
  split
  · rename_i hn
    exact Nat.le_of_lt (Nat.lt_of_lt_of_le hlt (hn ▸ h n))
  · exact h n

/-- Merging by the lesser representative relabels nodes with a lesser one. -/
theorem Canonical.union (h : p.Canonical) (hp : p.Valid) (a b : NodeId) :
    (p.union a b .lowerId).1.Canonical := by
  by_cases heq : p.find a = p.find b
  · rw [union_of_find_eq heq]
    exact h
  · have hkeeps : p.keepsSecond .lowerId (p.find a) (p.find b) = true ↔ p.find b < p.find a :=
      decide_eq_true_iff
    rw [union_of_find_ne heq]
    by_cases hlt : p.find b < p.find a
    · rw [if_pos (hkeeps.mpr hlt)]
      exact h.absorb hp (hp.find_find a) hlt
    · rw [if_neg (mt hkeeps.mp hlt)]
      exact h.absorb hp (hp.find_find b) (Nat.lt_of_le_of_ne (Nat.le_of_not_lt hlt) heq)

theorem canonical_run (pairs : List (NodeId × NodeId)) :
    (run (unions .lowerId pairs)).Canonical := by
  induction pairs using List.reverseRecOn with
  | nil => exact canonical_empty
  | append_singleton pairs pair ih =>
    rw [unions_append_singleton, run_append_singleton]
    exact ih.union (flat_run _).toValid pair.1 pair.2

/-- **Then every class is represented by its least member.** -/
theorem Canonical.isLeast_find (h : p.Canonical) (hp : p.Valid) (x : NodeId) :
    IsLeast {y | p.find y = p.find x} (p.find x) := by
  refine ⟨hp.find_find x, fun y hy => ?_⟩
  rw [← show p.find y = p.find x from hy]
  exact h y

/-- The first of the members in ascending order is the least one. -/
theorem Canonical.first?_classMembers (h : p.Canonical) (hp : p.Flat) (x : NodeId) :
    (p.classMembers x).first? = some (p.find x) := by
  obtain ⟨hmem, hleast⟩ := h.isLeast_find hp.toValid x
  have hascending : (p.classMembers x).Ascending := IdSet.ascending_ofList _
  have hfind : p.find x ∈ p.classMembers x := (hp.mem_classMembers x _).mpr hmem
  rw [IdSet.first?]
  cases hlist : (p.classMembers x).elements with
  | nil =>
    rw [← IdSet.mem_elements, hlist] at hfind
    cases hfind
  | cons y ys =>
    rw [IdSet.Ascending, hlist] at hascending
    have hy : y ∈ p.classMembers x := by
      rw [← IdSet.mem_elements, hlist]
      exact List.mem_cons_self
    have hle : p.find x ≤ y := hleast ((hp.mem_classMembers x y).mp hy)
    rw [← IdSet.mem_elements, hlist] at hfind
    rw [List.head?_cons]
    rcases List.mem_cons.mp hfind with heq | htail
    · rw [heq]
    · exact absurd hle (Nat.not_le_of_lt ((List.pairwise_cons.mp hascending).1 _ htail))

/-- Partitions with the same classes have the same representatives. -/
theorem Canonical.find_congr {q : Partition} (hp : p.Canonical) (hq : q.Canonical) (hvp : p.Valid)
    (hvq : q.Valid) (h : ∀ x y, p.find x = p.find y ↔ q.find x = q.find y) : p.find = q.find := by
  funext x
  have hclass : {y | p.find y = p.find x} = {y | q.find y = q.find x} := Set.ext fun y => h y x
  have hleast := hp.isLeast_find hvp x
  rw [hclass] at hleast
  exact hleast.unique (hq.isLeast_find hvq x)

/-! ## The larger class survives -/

/-- The nodes whose entries an operation writes: those that it moves to another class. -/
def Operation.relabelled (p : Partition) : Operation → List NodeId
  | mergeInto a b => ((p.mergeInto a b).2.absorbed.map p.moved).getD []
  | union a b policy => ((p.union a b policy).2.absorbed.map p.moved).getD []
  | subsumed _ | subsume _ _ | clear => []

/-- The number of entries that operations write, one after the other. -/
def rewritesFrom (p : Partition) : List Operation → Nat
  | [] => 0
  | op :: ops => (op.relabelled p).length + rewritesFrom (op.apply p) ops

/-- The number of entries that a run writes. -/
def rewrites (ops : List Operation) : Nat := rewritesFrom ∅ ops

/-- How often operations, one after the other, change the representative of a node. -/
def changesFrom (p : Partition) (x : NodeId) : List Operation → Nat
  | [] => 0
  | op :: ops =>
    (if (op.apply p).find x ≠ p.find x then 1 else 0) + changesFrom (op.apply p) x ops

/-- How often the representative of a node changes in a run. -/
def changes (ops : List Operation) (x : NodeId) : Nat := changesFrom ∅ x ops

theorem rewrites_append_singleton (ops : List Operation) (op : Operation) :
    rewrites (ops ++ [op]) = rewrites ops + (op.relabelled (run ops)).length := by
  have hfrom : ∀ p, rewritesFrom p (ops ++ [op]) =
      rewritesFrom p ops + (op.relabelled (ops.foldl Operation.apply p)).length := by
    induction ops with
    | nil => simp [rewritesFrom]
    | cons o ops ih => simp [rewritesFrom, ih, Nat.add_assoc]
  exact hfrom ∅

theorem changes_append_singleton (ops : List Operation) (op : Operation) (x : NodeId) :
    changes (ops ++ [op]) x =
      changes ops x + if (op.apply (run ops)).find x ≠ (run ops).find x then 1 else 0 := by
  have hfrom : ∀ p, changesFrom p x (ops ++ [op]) = changesFrom p x ops +
      if (op.apply (ops.foldl Operation.apply p)).find x ≠ (ops.foldl Operation.apply p).find x
      then 1 else 0 := by
    induction ops with
    | nil => exact fun p => Nat.add_comm _ _
    | cons o ops ih =>
      intro p
      rw [List.cons_append, changesFrom, ih, changesFrom, List.foldl_cons, Nat.add_assoc]
  exact hfrom ∅

/-! ### Entries and changes -/

/-- **A merge writes the entries of the nodes that change their representative**, each once. -/
theorem relabelled_union (hp : p.Flat) (a b : NodeId) (policy : SurvivorPolicy) :
    ((Operation.union a b policy).relabelled p).Nodup ∧
      ∀ x, x ∈ (Operation.union a b policy).relabelled p ↔
        (p.union a b policy).1.find x ≠ p.find x := by
  by_cases heq : p.find a = p.find b
  · simp [Operation.relabelled, union_of_find_eq heq]
  · obtain ⟨lost, survivor, hpair, hunion⟩ := union_of_ne heq policy
    have hlost : p.find lost = lost ∧ lost ≠ survivor := by
      rcases hpair with ⟨rfl, rfl⟩ | ⟨rfl, rfl⟩
      · exact ⟨hp.find_find a, heq⟩
      · exact ⟨hp.find_find b, Ne.symm heq⟩
    have hrelabelled : (Operation.union a b policy).relabelled p = p.classOf lost := by
      simp [Operation.relabelled, hunion, moved]
    rw [hrelabelled, hunion]
    refine ⟨hp.nodup hlost.1, fun x => ?_⟩
    rw [hp.mem_classOf hlost.1, find_absorb hp.toValid hlost.1]
    constructor
    · rintro hx
      rw [if_pos hx, hx]
      exact hlost.2.symm
    · intro hne
      by_contra hx
      rw [if_neg hx] at hne
      exact hne rfl

/-- Nodes that are connected by pairs of a set, and are not the same, belong to it. -/
theorem mem_of_eqvGen {U : Finset NodeId} {R : NodeId → NodeId → Prop}
    (hR : ∀ a b, R a b → a ∈ U ∧ b ∈ U) (h : Relation.EqvGen R x y) : x = y ∨ (x ∈ U ∧ y ∈ U) := by
  induction h with
  | rel x y hxy => exact .inr (hR x y hxy)
  | refl x => exact .inl rfl
  | symm x y _ ih => exact ih.imp Eq.symm And.symm
  | trans x y z _ _ ihxy ihyz => grind

section Universe

variable {U : Finset NodeId} (hU : ∀ pair ∈ pairs, pair.1 ∈ U ∧ pair.2 ∈ U)

include hU

/-- A node with another one in its class is of the universe. -/
theorem mem_of_find_eq (hne : x ≠ y)
    (h : (run (unions policy pairs)).find x = (run (unions policy pairs)).find y) : x ∈ U :=
  ((mem_of_eqvGen (fun a b hab => hU (a, b) hab) (find_eq_iff_unions.mp h)).resolve_left hne).1

/-- So is a node that another one represents. -/
theorem mem_of_find_ne (hne : (run (unions policy pairs)).find x ≠ x) : x ∈ U :=
  mem_of_find_eq hU hne.symm ((flat_run (unions policy pairs)).find_find x).symm

/-- No class of the universe is larger than it. -/
theorem classSize_le_card (hx : x ∈ U) : (run (unions policy pairs)).classSize x ≤ U.card := by
  have hflat := flat_run (unions policy pairs)
  have hrep := hflat.find_find x
  rw [classSize, ← List.toFinset_card_of_nodup (hflat.nodup hrep)]
  refine Finset.card_le_card fun y hy => ?_
  rw [List.mem_toFinset, hflat.mem_classOf hrep] at hy
  by_cases hyx : y = x
  · exact hyx ▸ hx
  · exact mem_of_find_eq hU hyx hy

/-- **Every entry written changes the representative of its node**, which is of the universe. -/
theorem rewrites_eq_sum_changes :
    rewrites (unions policy pairs) = ∑ x ∈ U, changes (unions policy pairs) x := by
  induction pairs using List.reverseRecOn with
  | nil => simp [rewrites, changes, unions, rewritesFrom, changesFrom]
  | append_singleton pairs pair ih =>
    have hbefore : ∀ pair ∈ pairs, pair.1 ∈ U ∧ pair.2 ∈ U := fun pair hpair =>
      hU pair (List.mem_append_left _ hpair)
    obtain ⟨hnodup, hmem⟩ :=
      relabelled_union (flat_run (unions policy pairs)) pair.1 pair.2 policy
    have hafter : run (unions policy (pairs ++ [pair])) =
        ((run (unions policy pairs)).union pair.1 pair.2 policy).1 := by
      rw [unions_append_singleton, run_append_singleton]
      rfl
    have hlength : ((Operation.union pair.1 pair.2 policy).relabelled
        (run (unions policy pairs))).length = ∑ x ∈ U,
          if ((Operation.union pair.1 pair.2 policy).apply (run (unions policy pairs))).find x ≠
            (run (unions policy pairs)).find x then 1 else 0 := by
      rw [← Finset.card_filter, ← List.toFinset_card_of_nodup hnodup]
      congr 1
      ext x
      rw [List.mem_toFinset, hmem, Finset.mem_filter]
      refine ⟨fun hne => ⟨?_, hne⟩, And.right⟩
      by_cases hx : (run (unions policy pairs)).find x = x
      · rw [hx, ← hafter] at hne
        exact mem_of_find_ne hU hne
      · exact mem_of_find_ne hbefore hx
    rw [unions_append_singleton, rewrites_append_singleton, ih hbefore, hlength,
      ← Finset.sum_add_distrib]
    exact Finset.sum_congr rfl fun x _ => (changes_append_singleton _ _ x).symm

end Universe

/-! ### Classes double -/

/-- Merging by the larger class merges a class into one that is at least as large. -/
theorem union_largerClass_of_ne (hp : p.Valid) (h : p.find a ≠ p.find b) :
    ∃ lost survivor, p.find lost = lost ∧ p.find survivor = survivor ∧ lost ≠ survivor ∧
      (p.classOf lost).length ≤ (p.classOf survivor).length ∧
      (p.union a b .largerClass).1 = p.absorb lost survivor := by
  have hsize : ∀ n, p.classSize (p.find n) = (p.classOf (p.find n)).length := fun n => by
    rw [classSize, hp.find_find]
  have hkeeps : p.keepsSecond .largerClass (p.find a) (p.find b) = true ↔
      (p.classOf (p.find a)).length ≤ (p.classOf (p.find b)).length := by
    rw [← hsize, ← hsize]
    exact decide_eq_true_iff
  rw [union_of_find_ne h]
  by_cases hle : (p.classOf (p.find a)).length ≤ (p.classOf (p.find b)).length
  · rw [if_pos (hkeeps.mpr hle)]
    exact ⟨_, _, hp.find_find a, hp.find_find b, h, hle, rfl⟩
  · rw [if_neg (mt hkeeps.mp hle)]
    exact ⟨_, _, hp.find_find b, hp.find_find a, Ne.symm h, Nat.le_of_not_le hle, rfl⟩

/-- The size of a class after a merge. -/
theorem classSize_absorb (hp : p.Valid) (hlost : p.find lost = lost) (x : NodeId) :
    (p.absorb lost survivor).classSize x =
      if p.find x = lost ∨ p.find x = survivor then
        (p.classOf survivor).length + (p.classOf lost).length
      else p.classSize x := by
  rw [classSize, find_absorb hp hlost, classOf_absorb]
  by_cases hl : p.find x = lost
  · simp [hl]
  · by_cases hs : p.find x = survivor
    · simp [hs]
    · simp [hl, hs, classSize]

/-- **A class doubles when its representative changes**, and never shrinks. -/
theorem classSize_union_largerClass (hp : p.Valid) (a b x : NodeId) :
    2 ^ (if (p.union a b .largerClass).1.find x ≠ p.find x then 1 else 0) * p.classSize x ≤
      (p.union a b .largerClass).1.classSize x := by
  by_cases heq : p.find a = p.find b
  · simp [union_of_find_eq heq]
  · obtain ⟨lost, survivor, hlost, hsurvivor, hne, hle, hunion⟩ := union_largerClass_of_ne hp heq
    rw [hunion, classSize_absorb hp hlost, find_absorb hp hlost]
    by_cases hl : p.find x = lost
    · have hsize : p.classSize x = (p.classOf lost).length := by rw [classSize, hl]
      rw [if_pos hl, if_pos (by rw [hl]; exact hne.symm), if_pos (.inl hl), hsize]
      omega
    · rw [if_neg hl, if_neg (not_not_intro rfl), pow_zero, one_mul]
      split
      · rename_i hor
        have hsize : p.classSize x = (p.classOf survivor).length := by
          rw [classSize, hor.resolve_left hl]
        omega
      · exact Nat.le_refl _

/-- **A class has doubled with every change of its representative.** -/
theorem pow_changes_le_classSize (pairs : List (NodeId × NodeId)) (x : NodeId) :
    2 ^ changes (unions .largerClass pairs) x ≤ (run (unions .largerClass pairs)).classSize x := by
  induction pairs using List.reverseRecOn with
  | nil => simp [changes, changesFrom, unions, run, classSize]
  | append_singleton pairs pair ih =>
    have hdoubles := classSize_union_largerClass (flat_run (unions .largerClass pairs)).toValid
      pair.1 pair.2 x
    rw [unions_append_singleton, run_append_singleton, changes_append_singleton, pow_add]
    calc
      _ ≤ (run (unions .largerClass pairs)).classSize x * _ := Nat.mul_le_mul_right _ ih
      _ = _ * (run (unions .largerClass pairs)).classSize x := Nat.mul_comm _ _
      _ ≤ _ := hdoubles

/-- **Merging by the larger class writes few entries**: at most the binary logarithm of the size
of the universe for each of its nodes. -/
theorem rewrites_le_mul_log {U : Finset NodeId}
    (hU : ∀ pair ∈ pairs, pair.1 ∈ U ∧ pair.2 ∈ U) :
    rewrites (unions .largerClass pairs) ≤ U.card * Nat.log 2 U.card := by
  have hlog : ∀ x ∈ U, changes (unions .largerClass pairs) x ≤ Nat.log 2 U.card := fun x hx =>
    Nat.le_log_of_pow_le Nat.one_lt_two
      ((pow_changes_le_classSize pairs x).trans (classSize_le_card hU hx))
  calc
    _ = ∑ x ∈ U, changes (unions .largerClass pairs) x := rewrites_eq_sum_changes hU
    _ ≤ ∑ _x ∈ U, Nat.log 2 U.card := Finset.sum_le_sum hlog
    _ = _ := Finset.sum_const_nat fun _ _ => rfl

/-- The size of a class is the number of its nodes. -/
theorem Flat.classSize_eq_ncard (hp : p.Flat) (x : NodeId) :
    p.classSize x = {y | p.find y = p.find x}.ncard := by
  have hrep := hp.find_find x
  have hclass : {y | p.find y = p.find x} = ((p.classOf (p.find x)).toFinset : Set NodeId) := by
    ext y
    rw [Finset.mem_coe, List.mem_toFinset, hp.mem_classOf hrep]
    rfl
  rw [hclass, Set.ncard_coe_finset, List.toFinset_card_of_nodup (hp.nodup hrep), classSize]

/-- **The cost of merging by the larger class**: a node that has changed its representative `c`
times is in a class of at least `2 ^ c` nodes. The entries written are these changes, so over a
universe of `n` nodes a whole run writes at most `n * log₂ n` of them. -/
theorem unions_largerClass_cost (pairs : List (NodeId × NodeId)) :
    (∀ x, 2 ^ changes (unions .largerClass pairs) x ≤
        (run (unions .largerClass pairs)).classSize x ∧
      (run (unions .largerClass pairs)).classSize x =
        {y | (run (unions .largerClass pairs)).find y =
          (run (unions .largerClass pairs)).find x}.ncard) ∧
    ∀ U : Finset NodeId, (∀ pair ∈ pairs, pair.1 ∈ U ∧ pair.2 ∈ U) →
      rewrites (unions .largerClass pairs) = ∑ x ∈ U, changes (unions .largerClass pairs) x ∧
      rewrites (unions .largerClass pairs) ≤ U.card * Nat.log 2 U.card :=
  ⟨fun x => ⟨pow_changes_le_classSize pairs x, (flat_run _).classSize_eq_ncard x⟩,
    fun _ hU => ⟨rewrites_eq_sum_changes hU, rewrites_le_mul_log hU⟩⟩

/-- Two pairs and then their classes: node `0` changes its representative twice. -/
theorem unions_largerClass_cost_tournament :
    (∀ pair ∈ [(0, 1), (2, 3), (1, 3)], pair.1 ∈ Finset.range 4 ∧ pair.2 ∈ Finset.range 4) ∧
    changes (unions .largerClass [(0, 1), (2, 3), (1, 3)]) 0 = 2 ∧
    rewrites (unions .largerClass [(0, 1), (2, 3), (1, 3)]) = 4 ∧
    2 ^ changes (unions .largerClass [(0, 1), (2, 3), (1, 3)]) 0 ≤
      (run (unions .largerClass [(0, 1), (2, 3), (1, 3)])).classSize 0 ∧
    rewrites (unions .largerClass [(0, 1), (2, 3), (1, 3)]) ≤
      (Finset.range 4).card * Nat.log 2 (Finset.range 4).card := by
  have hrange : ∀ pair ∈ [(0, 1), (2, 3), (1, 3)],
      pair.1 ∈ Finset.range 4 ∧ pair.2 ∈ Finset.range 4 := by decide
  have hcost := unions_largerClass_cost [(0, 1), (2, 3), (1, 3)]
  exact ⟨hrange, by decide, by decide, (hcost.1 0).1, (hcost.2 _ hrange).2⟩

end PointsTo.Partition
