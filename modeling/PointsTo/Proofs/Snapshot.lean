import PointsTo.Proofs.Placement
import PointsTo.Snapshot.Basic

/-!
# What a snapshot holds

A snapshot is filled by going through the nodes of the graph and their representatives, leaving out
what can be told without an entry: nodes that represent themselves, and empty sets. So a question
about a node of the graph is answered by the class and the set that the solver has for it. The
searches and walks over sets need these to ascend, which they do after every history in which sets
added by hand were made by the operations on sets.

## Main definitions

* `Snapshot.Mirrors`: a snapshot answers every question as the solver would
* `Operation.Formed`: a set that is added by hand was made by the operations on sets

## Main results

* `representative_freeze`: the representatives listed are those of the solver
* `set?_freeze`: so are the sets, but for the empty ones
* `mayAlias_freeze`: two nodes may alias if they share a class or their sets meet
* `mustAlias_freeze`: they must if both sets hold the same single object
* `mirrors_freeze_of_governed`: the snapshot of a solver answers as the solver would
-/

namespace PointsTo

/-- A table that is filled from a list of keys, leaving some out. -/
theorem getElem?_foldl_insert {β : Type} (skip : Nat → Prop) [DecidablePred skip] (value : Nat → β)
    (keys : List Nat) (table : Std.ExtTreeMap Nat β) (k : Nat) :
    (keys.foldl (fun table n => if skip n then table else table.insert n (value n)) table)[k]? =
      if k ∈ keys ∧ ¬ skip k then some (value k) else table[k]? := by
  induction keys generalizing table with
  | nil => simp
  | cons n keys ih =>
    rw [List.foldl_cons, ih]
    by_cases hmem : k ∈ keys ∧ ¬ skip k
    · rw [if_pos hmem, if_pos ⟨List.mem_cons_of_mem n hmem.1, hmem.2⟩]
    · rw [if_neg hmem]
      by_cases hkn : k = n
      · subst hkn
        by_cases hskip : skip k
        · simp [hskip]
        · simp [hskip]
      · have hcons : ¬ (k ∈ n :: keys ∧ ¬ skip k) := fun h =>
          hmem ⟨(List.mem_cons.mp h.1).resolve_left hkn, h.2⟩
        rw [if_neg hcons]
        split
        · rfl
        · simp [Std.ExtTreeMap.getElem?_insert, Ne.symm hkn]

namespace Solver

variable {s : Solver} {n a b : NodeId}

/-! ## Classes and sets -/

theorem getElem?_representatives_freeze (s : Solver) (n : NodeId) :
    s.freeze.representatives[n]? =
      if n ∈ s.graph.nodeIds ∧ ¬ s.representative n = n then some (s.representative n) else none :=
  (getElem?_foldl_insert (fun n => s.representative n = n) s.representative s.graph.nodeIds ∅
    n).trans (by rw [Std.ExtTreeMap.getElem?_empty])

/-- **The representatives listed are those of the solver.** -/
theorem representative_freeze (hn : s.graph.hasNode n = true) :
    s.freeze.representative n = s.representative n := by
  have hmem := ConstraintGraph.mem_nodeIds.mpr hn
  rw [Snapshot.representative, Std.ExtTreeMap.getD_eq_getD_getElem?,
    getElem?_representatives_freeze]
  by_cases hself : s.representative n = n
  · rw [if_neg fun h => h.2 hself, Option.getD_none, hself]
  · rw [if_pos ⟨hmem, hself⟩, Option.getD_some]

/-- A representative is one of a node of the graph. -/
theorem mem_representativesOf_nodeIds {r : NodeId} :
    r ∈ (s.classes.representativesOf s.graph.nodeIds).toList ↔
      ∃ n, s.graph.hasNode n = true ∧ s.representative n = r := by
  refine (IdSet.mem_ofList _ _).trans (List.mem_map.trans ?_)
  simp only [ConstraintGraph.mem_nodeIds]
  rfl

theorem getElem?_sets_freeze (s : Solver) (r : NodeId) :
    s.freeze.sets[r]? =
      if r ∈ (s.classes.representativesOf s.graph.nodeIds).toList ∧
        ¬ (s.store.get r).isEmpty = true then some (s.store.get r) else none :=
  (getElem?_foldl_insert (fun r => (s.store.get r).isEmpty = true) s.store.get
    (s.classes.representativesOf s.graph.nodeIds).toList ∅ r).trans
    (by rw [Std.ExtTreeMap.getElem?_empty])

/-- **The sets listed are those of the solver**, but for the empty ones. -/
theorem set?_freeze (hn : s.graph.hasNode n = true) :
    s.freeze.set? n = if (s.pointsTo n).isEmpty then none else some (s.pointsTo n) := by
  have hrep := mem_representativesOf_nodeIds.mpr ⟨n, hn, rfl⟩
  rw [Snapshot.set?, representative_freeze hn, getElem?_sets_freeze, ← pointsTo]
  by_cases hempty : (s.pointsTo n).isEmpty = true
  · rw [if_neg fun h => h.2 hempty, if_pos hempty]
  · rw [if_pos ⟨hrep, hempty⟩, if_neg hempty]

/-- An empty set is told without an entry. -/
theorem getD_set?_freeze (hn : s.graph.hasNode n = true) :
    (s.freeze.set? n).getD ∅ = s.pointsTo n := by
  rw [set?_freeze hn]
  by_cases hempty : (s.pointsTo n).isEmpty = true
  · rw [if_pos hempty, Option.getD_none]
    exact (IdSet.eq_empty_of_isEmpty hempty).symm
  · rw [if_neg hempty, Option.getD_some]

/-- **The representatives with a set listed** are those of the graph whose set is not empty. -/
theorem mem_keys_freeze {r : NodeId} :
    r ∈ s.freeze.keys ↔
      ∃ n, s.graph.hasNode n = true ∧ s.representative n = r ∧ ∃ o, o ∈ s.pointsTo n := by
  rw [Snapshot.keys, Std.ExtTreeMap.mem_keys, Std.ExtTreeMap.mem_iff_isSome_getElem?,
    getElem?_sets_freeze]
  constructor
  · intro hsome
    split at hsome
    · rename_i hlisted
      obtain ⟨n, hn, rfl⟩ := mem_representativesOf_nodeIds.mp hlisted.1
      refine ⟨n, hn, rfl, ?_⟩
      by_contra hnone
      exact hlisted.2 (IdSet.isEmpty_iff.mpr fun o ho => hnone ⟨o, ho⟩)
    · cases hsome
  · rintro ⟨n, hn, rfl, o, ho⟩
    rw [if_pos ⟨mem_representativesOf_nodeIds.mpr ⟨n, hn, rfl⟩,
      fun hempty => IdSet.isEmpty_iff.mp hempty o ho⟩]
    rfl

/-! ## Aliases -/

/-- A set that holds an object is listed. -/
theorem set?_freeze_of_mem {o : NodeId} (hn : s.graph.hasNode n = true) (ho : o ∈ s.pointsTo n) :
    s.freeze.set? n = some (s.pointsTo n) := by
  rw [set?_freeze hn, if_neg fun h => IdSet.isEmpty_iff.mp h o ho]

/-- **Two nodes may alias if they share a class or their sets meet.** -/
theorem mayAlias_freeze (h : s.store.Ascending) (ha : s.graph.hasNode a = true)
    (hb : s.graph.hasNode b = true) :
    s.freeze.mayAlias a b = true ↔ s.Same a b ∨ ∃ o, o ∈ s.pointsTo a ∧ o ∈ s.pointsTo b := by
  rw [Snapshot.mayAlias, representative_freeze ha, representative_freeze hb]
  by_cases hsame : s.representative a = s.representative b
  · rw [if_pos hsame]
    exact ⟨fun _ => .inl hsame, fun _ => rfl⟩
  · have hapart : ¬ s.Same a b := hsame
    rw [if_neg hsame, or_iff_right hapart]
    constructor
    · intro hmeets
      rw [set?_freeze ha, set?_freeze hb] at hmeets
      by_cases hna : (s.pointsTo a).isEmpty = true
      · rw [if_pos hna] at hmeets
        cases hmeets
      · by_cases hnb : (s.pointsTo b).isEmpty = true
        · rw [if_neg hna, if_pos hnb] at hmeets
          cases hmeets
        · rw [if_neg hna, if_neg hnb] at hmeets
          exact (IdSet.intersects_iff (h _) (h _)).mp hmeets
    · rintro ⟨o, hoa, hob⟩
      rw [set?_freeze_of_mem ha hoa, set?_freeze_of_mem hb hob]
      exact (IdSet.intersects_iff (h _) (h _)).mpr ⟨o, hoa, hob⟩

/-- **Two nodes must alias if both sets hold the same single object.** -/
theorem mustAlias_freeze (ha : s.graph.hasNode a = true) (hb : s.graph.hasNode b = true) :
    s.freeze.mustAlias a b = true ↔
      ∃ o, s.pointsTo a = .singleton o ∧ s.pointsTo b = .singleton o := by
  rw [Snapshot.mustAlias]
  constructor
  · intro hmust
    rw [set?_freeze ha, set?_freeze hb] at hmust
    by_cases hna : (s.pointsTo a).isEmpty = true
    · rw [if_pos hna] at hmust
      cases hmust
    · by_cases hnb : (s.pointsTo b).isEmpty = true
      · rw [if_neg hna, if_pos hnb] at hmust
        cases hmust
      · rw [if_neg hna, if_neg hnb] at hmust
        simp only [Bool.and_eq_true, decide_eq_true_eq] at hmust
        obtain ⟨⟨hsa, hsb⟩, hfirst⟩ := hmust
        obtain ⟨o, hoa⟩ := IdSet.exists_singleton_of_size hsa
        obtain ⟨x, hxb⟩ := IdSet.exists_singleton_of_size hsb
        rw [hoa, hxb] at hfirst
        obtain rfl : o = x := Option.some.inj hfirst
        exact ⟨o, hoa, hxb⟩
  · rintro ⟨o, hoa, hob⟩
    have hmem : o ∈ IdSet.singleton o := (IdSet.mem_singleton o o).mpr rfl
    rw [set?_freeze_of_mem ha (hoa ▸ hmem), set?_freeze_of_mem hb (hob ▸ hmem), hoa, hob]
    simp [IdSet.size, IdSet.singleton]

end Solver

open Solver

/-! ## Snapshot and solver -/

/-- **A snapshot answers every question as the solver would**, for nodes of its graph. -/
structure Snapshot.Mirrors (g : Snapshot) (s : Solver) : Prop where
  representative : ∀ {n}, s.graph.hasNode n = true → g.representative n = s.representative n
  pointsTo : ∀ {n}, s.graph.hasNode n = true → g.pointsTo n = (s.pointsTo n).toList
  ascending : ∀ {n}, s.graph.hasNode n = true → (g.pointsTo n).Pairwise (· < ·)
  size : ∀ {n}, s.graph.hasNode n = true → g.size n = (g.pointsTo n).length
  contains : ∀ {n o}, s.graph.hasNode n = true → (g.contains n o = true ↔ o ∈ s.pointsTo n)
  mayAlias : ∀ {a b}, s.graph.hasNode a = true → s.graph.hasNode b = true →
    (g.mayAlias a b = true ↔ s.representative a = s.representative b ∨
      ∃ o, o ∈ s.pointsTo a ∧ o ∈ s.pointsTo b)
  mustAlias : ∀ {a b}, s.graph.hasNode a = true → s.graph.hasNode b = true →
    (g.mustAlias a b = true ↔ ∃ o, s.pointsTo a = .singleton o ∧ s.pointsTo b = .singleton o)
  keys : ∀ {r}, r ∈ g.keys ↔
    ∃ n, s.graph.hasNode n = true ∧ s.representative n = r ∧ ∃ o, o ∈ s.pointsTo n

/-- The snapshot of a state whose sets ascend answers as the state would. -/
theorem mirrors_freeze {s : Solver} (h : s.store.Ascending) : s.freeze.Mirrors s where
  representative := representative_freeze
  pointsTo hn := by rw [Snapshot.pointsTo, getD_set?_freeze hn]
  ascending {n} hn := by
    rw [Snapshot.pointsTo, getD_set?_freeze hn]
    exact h (s.representative n)
  size _ := rfl
  contains {n o} hn := by
    rw [Snapshot.contains, getD_set?_freeze hn]
    exact IdSet.contains_iff_mem (h (s.representative n))
  mayAlias := mayAlias_freeze h
  mustAlias := mustAlias_freeze
  keys := mem_keys_freeze

/-! ## Histories -/

/-- **An operation is formed** when a set that it adds by hand was made by the operations on sets.
It may name any nodes. -/
def Operation.Formed : Operation → Prop
  | .hand op => ∀ set ∈ op.set?, set.Built
  | _ => True

theorem Operation.Proper.formed {s : Solver} {op : Operation} (h : op.Proper s) : op.Formed := by
  cases op with
  | hand op => exact h.2
  | _ => trivial

/-- What formed operations may do. -/
def Licence.formed : Licence where
  hand _ op := Operation.Formed (.hand op)
  copy _ _ _ := True
  allocate _ _ := True

theorem Operation.Formed.licensed {s : Solver} {op : Operation} (h : op.Formed) :
    op.Licensed .formed s := by
  refine ⟨?_, fun _ _ => trivial, fun _ => trivial⟩
  rintro op rfl
  exact h

/-- **The snapshot of a solver answers as the solver would**, after any history of operations whose
sets were made by the operations on sets, from sets that ascend or from none at all. -/
theorem mirrors_freeze_of_governed {p : Problem} {s : Solver} (hp : p.Made)
    (hstore : p.store.Ascending) (h : Governed (fun _ op => op.Formed) p s) :
    s.freeze.Mirrors s := by
  have hL : Licence.analysis ≤ .formed := ⟨fun h => h.elim, fun _ => trivial, fun _ => trivial⟩
  have hordered : Licence.formed.Ordered := fun hop => (hop _ rfl).ascending
  refine mirrors_freeze ?_
  exact h.keeps (I := fun s => s.store.Ascending) hp hL (fun hop => hop.licensed)
    (ascending_ofProblem hstore) fun hs hstep hsets => hsets.step hs.valid hordered hstep

/-- The sample history, a set added by hand with an object that is no node of the graph, and an
analysis. -/
def sampleAnalyzed : Solver := (sampleHistory.addObjects 9 (.ofList [40, 1])).1.analyze.1

theorem formed_sampleAnalyzed : Governed (fun _ op => op.Formed) sampleProblem sampleAnalyzed := by
  have hformed : Operation.Formed (.hand (.addObjects 9 (.ofList [40, 1]))) := by
    rintro set ⟨⟩
    exact .ofList _
  have hhistory : Governed (fun _ op => op.Formed) sampleProblem sampleHistory :=
    governed_sampleHistory.mono fun h => h.formed
  have hadded : Governed (fun _ op => op.Formed) sampleProblem
      (sampleHistory.addObjects 9 (.ofList [40, 1])).1 :=
    .apply (.hand (.addObjects 9 (.ofList [40, 1]))) hhistory hformed
  rw [sampleAnalyzed]
  exact hadded.analyze trivial

/-- Nodes with sets that meet may alias, and need not when one of the sets holds two objects. -/
theorem mirrors_freeze_sample :
    sampleAnalyzed.freeze.pointsTo 8 = [1, 40] ∧ sampleAnalyzed.freeze.mayAlias 0 8 = true ∧
      sampleAnalyzed.freeze.mustAlias 0 8 = false ∧ sampleAnalyzed.freeze.mustAlias 2 5 = true ∧
      sampleAnalyzed.freeze.Mirrors sampleAnalyzed :=
  ⟨by decide +kernel, by decide +kernel, by decide +kernel, by decide +kernel,
    mirrors_freeze_of_governed sampleProblem_made Store.Ascending.empty formed_sampleAnalyzed⟩

end PointsTo
