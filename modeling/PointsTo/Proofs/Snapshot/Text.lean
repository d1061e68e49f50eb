import PointsTo.Proofs.Call
import PointsTo.Proofs.Json.Decode
import PointsTo.Proofs.Traced
import PointsTo.Snapshot.Text

/-!
# Snapshots that are read back

A text of a snapshot is read as the snapshot itself, in whatever order it lists entries and members,
but for the average, which goes through decimals and back. Reading asks for identifiers of 32 bits
and counts of 64 bits, and for an average that can be held: this is all that a snapshot needs. The
snapshot of a state that was reached with such identifiers has it.

## Main definitions

* `Snapshot.Writable`: identifiers and counts are within the bounds of their readers
* `Snapshot.Agrees`: two snapshots list the same and answer alike
* `Scope.narrow`: operations name numbers of 32 bits

## Main results

* `tableOfList_eq`: a table is made again from its entries in any order
* `idTable?_entriesToJson`: the entries of a table are read back
* `Arrangement.Of.ofText?_toText`: a writable snapshot is read back from each of its texts, but for
  the average
* `writable_freeze`: the snapshot of a traced state is writable
* `agrees_reread_freeze`: snapshots of reachable states are read back from each of their texts
-/

namespace PointsTo

namespace Snapshot

variable {α β : Type} {g : Snapshot}

/-! ## Tables -/

theorem tableOfList_eq_ofList (entries : List (NodeId × α)) :
    tableOfList entries = .ofList entries := by
  rw [Std.ExtTreeMap.ofList_eq_insertMany_empty, tableOfList]
  generalize (∅ : Std.ExtTreeMap NodeId α) = table
  induction entries generalizing table with
  | nil => simp
  | cons entry entries ih => rw [List.foldl_cons, ih, Std.ExtTreeMap.insertMany_cons]

/-- **A table is made again from its entries**, in any order: its keys are listed once, each with
its value. -/
theorem tableOfList_eq {entries : List (NodeId × α)} {table : Std.ExtTreeMap NodeId α}
    (hkeys : (entries.map Prod.fst).Perm table.keys)
    (hvalues : ∀ entry ∈ entries, table[entry.1]? = some entry.2) :
    tableOfList entries = table := by
  have hdistinct : entries.Pairwise fun a b => ¬ compare a.1 b.1 = .eq := by
    refine List.pairwise_map.mp (hkeys.symm.pairwise Std.ExtTreeMap.distinct_keys ?_)
    intro a b hne heq
    exact hne (Std.OrientedCmp.eq_symm heq)
  rw [tableOfList_eq_ofList]
  refine Std.ExtTreeMap.ext_getElem? fun k => ?_
  by_cases hk : k ∈ table
  · obtain ⟨entry, hentry, rfl⟩ :=
      List.mem_map.mp (hkeys.mem_iff.mpr (Std.ExtTreeMap.mem_keys.mpr hk))
    rw [hvalues entry hentry]
    exact Std.ExtTreeMap.getElem?_ofList_of_mem Std.ReflCmp.compare_self hdistinct hentry
  · rw [Std.ExtTreeMap.getElem?_eq_none hk]
    refine Std.ExtTreeMap.getElem?_ofList_of_contains_eq_false ?_
    rw [List.contains_eq_mem, decide_eq_false_iff_not, hkeys.mem_iff, Std.ExtTreeMap.mem_keys]
    exact hk

theorem tableOfList_of_perm {entries : List (NodeId × α)} {table : Std.ExtTreeMap NodeId α}
    (h : entries.Perm table.toList) : tableOfList entries = table := by
  refine tableOfList_eq ?_ fun entry hentry => ?_
  · rw [← Std.ExtTreeMap.map_fst_toList_eq_keys]
    exact h.map Prod.fst
  · exact Std.ExtTreeMap.mem_toList_iff_getElem?_eq_some.mp (h.mem_iff.mp hentry)

/-- **The entries of a table are read back** when its values are. -/
theorem idTable?_entriesToJson {write : α → Json} {read : Json → Option β} {f : α → β}
    {entries : List (NodeId × α)}
    (h : ∀ entry ∈ entries, entry.1 < Id.bound ∧ read (write entry.2) = some (f entry.2)) :
    (entriesToJson write entries).idTable? read =
      some (entries.map fun entry => (entry.1, f entry.2)) := by
  refine Json.mapM_map_eq_some fun entry hentry => ?_
  obtain ⟨hk, hv⟩ := h entry hentry
  simp only [Json.idKey?_toDigits hk, hv]

theorem formed_entriesToJson {write : α → Json} (h : ∀ v, (write v).Formed)
    (entries : List (NodeId × α)) : (entriesToJson write entries).Formed := by
  refine .object (fun m hm => ?_) fun m hm => ?_
  · obtain ⟨entry, -, rfl⟩ := List.mem_map.mp hm
    exact Json.quotable_of_isDigit (Json.digits_toDigits entry.1).isDigit
  · obtain ⟨entry, -, rfl⟩ := List.mem_map.mp hm
    exact h entry.2

end Snapshot

/-! ## Writable snapshots -/

/-- **What a reader asks of the figures**: counts of 64 bits, and an average of moderate size. -/
structure SnapshotStats.Writable (stats : SnapshotStats) : Prop where
  totalNodes : stats.totalNodes < Count.bound
  equivalenceClasses : stats.equivalenceClasses < Count.bound
  mergedNodes : stats.mergedNodes < Count.bound
  totalEdges : stats.totalEdges < Count.bound
  maxPointsToSize : stats.maxPointsToSize < Count.bound
  average : (Decimal.Dyadic.ofFloat stats.avgPointsToSize).exponent ≤ 15

namespace Snapshot

/-- **What a reader asks of a snapshot**: identifiers of 32 bits, classes in ascending order, and
figures that can be read. -/
structure Writable (g : Snapshot) : Prop where
  sets : ∀ {r set}, g.sets[r]? = some set → r < Id.bound ∧ ∀ o ∈ set, o < Id.bound
  representatives : ∀ {n r}, g.representatives[n]? = some r → n < Id.bound ∧ r < Id.bound
  classes : ∀ {r members}, g.classes[r]? = some members →
    r < Id.bound ∧ members.Ascending ∧ ∀ x ∈ members, x < Id.bound
  stats : g.stats.Writable

variable {g : Snapshot} {stats : SnapshotStats}

theorem formed_statsToJson (stats : SnapshotStats) : (statsToJson stats).Formed := by
  refine Json.formed_ofMembers_zip statsNames ?_
  simp [Json.formed_ofNat, Json.Formed.number (Json.Numeral.formed_ofFloat _)]

/-- **The figures are read back**, but for the average. -/
theorem statsOfJson?_statsToJson (h : stats.Writable) :
    ∃ x, statsOfJson? (statsToJson stats) = some { stats with avgPointsToSize := x } := by
  obtain ⟨x, hx⟩ := Option.isSome_iff_exists.mp (Json.Numeral.isSome_float?_ofFloat h.average)
  have hfields : (statsToJson stats).fields? statsNames = some
      [some (.ofNat stats.totalNodes), some (.ofNat stats.equivalenceClasses),
        some (.ofNat stats.mergedNodes), some (.ofNat stats.totalEdges),
        some (.ofNat stats.maxPointsToSize), some (.number (.ofFloat stats.avgPointsToSize))] :=
    Json.fields?_ofMembers (by decide) rfl
  refine ⟨x, ?_⟩
  rw [statsOfJson?, hfields]
  simp only [Json.required, Option.bind_some, Json.count?, Json.natBelow?_ofNat h.totalNodes,
    Json.natBelow?_ofNat h.equivalenceClasses, Json.natBelow?_ofNat h.mergedNodes,
    Json.natBelow?_ofNat h.totalEdges, Json.natBelow?_ofNat h.maxPointsToSize, Json.float?, hx]
  rfl

/-! ## Arrangements -/

namespace Arrangement

variable {a : Arrangement}

theorem formed_toJson (a : Arrangement) : a.toJson.Formed := by
  refine Json.formed_ofMembers_zip partNames ?_
  simp only [List.forall_mem_cons, List.not_mem_nil, false_imp_iff, implies_true, and_true]
  exact ⟨Json.formed_ofString _, formed_entriesToJson IdSet.formed_toJson _,
    formed_entriesToJson Json.formed_ofNat _, formed_entriesToJson Json.formed_ofNats _,
    formed_statsToJson _⟩

/-- Sets are taken as they are listed, but classes are sorted again: this is how they are held. -/
theorem Of.classes_eq (ha : a.Of g) (h : g.Writable) :
    tableOfList (a.classes.map fun entry => (entry.1, IdSet.ofList entry.2)) = g.classes := by
  refine tableOfList_eq ?_ ?_
  · rw [List.map_map]
    exact ha.classes
  · intro sorted hsorted
    obtain ⟨entry, hentry, rfl⟩ := List.mem_map.mp hsorted
    obtain ⟨members, hmembers, hperm⟩ := ha.members entry hentry
    have heq : IdSet.ofList entry.2 = members := by
      refine IdSet.eq_of_mem_iff (IdSet.ascending_ofList _) (h.classes hmembers).2.1 fun x => ?_
      rw [IdSet.mem_ofList, hperm.mem_iff]
      rfl
    rw [hmembers, heq]

/-- **A writable snapshot is read back from each of its texts**, but for the average. -/
theorem Of.ofText?_toText (ha : a.Of g) (h : g.Writable) :
    ∃ x, ofText? a.toText = some { g with stats.avgPointsToSize := x } := by
  obtain ⟨x, hx⟩ := statsOfJson?_statsToJson h.stats
  have hfields : a.toJson.fields? partNames = some
      [some a.kind.toJson, some (entriesToJson IdSet.toJson a.sets),
        some (entriesToJson .ofNat a.representatives), some (entriesToJson .ofNats a.classes),
        some (statsToJson a.stats)] :=
    Json.fields?_ofMembers (by decide) rfl
  have hkind := AnalysisKind.ofJson?_toJson g.kind
  have hsets : (entriesToJson IdSet.toJson a.sets).idTable? IdSet.ofJson? =
      some (a.sets.map fun entry => (entry.1, id entry.2)) := by
    refine idTable?_entriesToJson fun entry hentry => ?_
    have hset := h.sets
      (Std.ExtTreeMap.mem_toList_iff_getElem?_eq_some.mp (ha.sets.mem_iff.mp hentry))
    exact ⟨hset.1, IdSet.ofJson?_toJson hset.2⟩
  have hrepresentatives : (entriesToJson .ofNat a.representatives).idTable? Json.id? =
      some (a.representatives.map fun entry => (entry.1, id entry.2)) := by
    refine idTable?_entriesToJson fun entry hentry => ?_
    have hrep := h.representatives
      (Std.ExtTreeMap.mem_toList_iff_getElem?_eq_some.mp (ha.representatives.mem_iff.mp hentry))
    exact ⟨hrep.1, Json.natBelow?_ofNat hrep.2⟩
  have hclasses : (entriesToJson .ofNats a.classes).idTable? Json.ids? =
      some (a.classes.map fun entry => (entry.1, id entry.2)) := by
    refine idTable?_entriesToJson fun entry hentry => ?_
    obtain ⟨members, hmembers, hperm⟩ := ha.members entry hentry
    have hbound := (h.classes hmembers).2.2
    exact ⟨(h.classes hmembers).1, Json.ids?_ofNats fun x hx => hbound x (hperm.mem_iff.mp hx)⟩
  refine ⟨x, ?_⟩
  rw [toText, ofText?, Json.parse?_pretty (formed_toJson a), Option.bind_some, ofJson?, hfields]
  simp only [Json.required, Option.bind_some, ha.kind, ha.stats, hkind, hsets, hrepresentatives,
    hclasses, hx]
  simp only [id, List.map_id', tableOfList_of_perm ha.sets, tableOfList_of_perm ha.representatives,
    ha.classes_eq h, Option.bind_eq_bind, Option.bind_some]
  rfl

end Arrangement

theorem of_inOrder (g : Snapshot) : g.inOrder.Of g where
  kind := rfl
  sets := .refl _
  representatives := .refl _
  classes := by
    rw [inOrder, List.map_map, ← Std.ExtTreeMap.map_fst_toList_eq_keys]
    exact .refl _
  members := by
    intro entry hentry
    obtain ⟨⟨r, members⟩, hlisted, rfl⟩ := List.mem_map.mp hentry
    exact ⟨members, Std.ExtTreeMap.mem_toList_iff_getElem?_eq_some.mp hlisted, .refl _⟩
  stats := rfl

/-- A writable snapshot is read back from its text in ascending order, but for the average. -/
theorem Writable.ofText?_toText (h : g.Writable) :
    ∃ x, ofText? g.toText = some { g with stats.avgPointsToSize := x } :=
  g.of_inOrder.ofText?_toText h

/-! ## Agreement -/

/-- **Two snapshots list the same and answer alike**; only their averages may differ. -/
structure Agrees (g f : Snapshot) : Prop where
  kind : g.kind = f.kind
  sets : g.sets = f.sets
  representatives : g.representatives = f.representatives
  classes : g.classes = f.classes
  totalNodes : g.stats.totalNodes = f.stats.totalNodes
  equivalenceClasses : g.stats.equivalenceClasses = f.stats.equivalenceClasses
  mergedNodes : g.stats.mergedNodes = f.stats.mergedNodes
  totalEdges : g.stats.totalEdges = f.stats.totalEdges
  maxPointsToSize : g.stats.maxPointsToSize = f.stats.maxPointsToSize
  representative : ∀ n, g.representative n = f.representative n
  pointsTo : ∀ n, g.pointsTo n = f.pointsTo n
  size : ∀ n, g.size n = f.size n
  contains : ∀ n o, g.contains n o = f.contains n o
  members : ∀ n, g.members n = f.members n
  mayAlias : ∀ a b, g.mayAlias a b = f.mayAlias a b
  mustAlias : ∀ a b, g.mustAlias a b = f.mustAlias a b
  keys : g.keys = f.keys

/-- No question is answered from the average. -/
theorem agrees_withAverage (g : Snapshot) (x : Float) :
    { g with stats.avgPointsToSize := x }.Agrees g := by
  constructor <;> intros <;> rfl

end Snapshot

/-! ## Snapshots of a solver -/

/-- Operations name numbers of 32 bits. -/
def Scope.narrow : Scope := fun _ n => n < Id.bound

/-- A table that is filled from a list of keys has no more entries than the list. -/
theorem size_foldl_insert_le {β : Type} (skip : Nat → Prop) [DecidablePred skip] (value : Nat → β)
    (keys : List Nat) (table : Std.ExtTreeMap Nat β) :
    (keys.foldl (fun table n => if skip n then table else table.insert n (value n)) table).size ≤
      table.size + keys.length := by
  induction keys generalizing table with
  | nil => exact Nat.le_refl _
  | cons n keys ih =>
    have hstep : (if skip n then table else table.insert n (value n)).size ≤ table.size + 1 := by
      split
      · exact Nat.le_succ _
      · exact Std.ExtTreeMap.size_insert_le
    have hrest := ih (if skip n then table else table.insert n (value n))
    rw [List.foldl_cons, List.length_cons]
    omega

theorem foldl_max_le_foldl_add (sizes : List Nat) {a b : Nat} (h : a ≤ b) :
    sizes.foldl max a ≤ sizes.foldl (· + ·) b := by
  induction sizes generalizing a b with
  | nil => exact h
  | cons n sizes ih => exact ih (show max a n ≤ b + n by omega)

namespace Solver

variable {s : Solver} {n : NodeId}

theorem Traceable.lt (h : s.Traceable (· < Id.bound) n) (hs : s.graph.nodeCount ≤ Id.bound) :
    n < Id.bound :=
  h.elim id fun hn => Nat.lt_of_lt_of_le (ConstraintGraph.hasNode_iff.mp hn) hs

theorem size_representatives_freeze_le (s : Solver) :
    s.freeze.representatives.size ≤ s.graph.nodeCount := by
  have hsize := size_foldl_insert_le (fun n => s.representative n = n) s.representative
    s.graph.nodeIds ∅
  rw [ConstraintGraph.nodeIds, List.length_range, Std.ExtTreeMap.size_empty, Nat.zero_add] at hsize
  exact hsize

/-- A snapshot lists no more sets than the graph has nodes, as nodes of one class have one
representative. -/
theorem size_sets_freeze_le (s : Solver) : s.freeze.sets.size ≤ s.graph.nodeCount := by
  have hsize := size_foldl_insert_le (fun r => (s.store.get r).isEmpty = true) s.store.get
    (s.classes.representativesOf s.graph.nodeIds).toList ∅
  rw [Std.ExtTreeMap.size_empty, Nat.zero_add] at hsize
  have hreps : (s.classes.representativesOf s.graph.nodeIds).size ≤ s.graph.nodeCount := by
    rw [Partition.representativesOf, IdSet.size_ofList]
    refine (List.toFinset_card_le _).trans ?_
    rw [List.length_map, ConstraintGraph.nodeIds, List.length_range]
  exact hsize.trans hreps

/-- **The figures can be read** when the identifiers of the graph and the count of edges can. -/
theorem writable_stats_freeze (hnodes : s.graph.nodeCount ≤ Id.bound)
    (hedges : s.freeze.stats.totalEdges < Count.bound) : s.freeze.stats.Writable := by
  have hbounds : Id.bound < Count.bound := by decide
  have hmerged := s.size_representatives_freeze_le
  have hsets := s.size_sets_freeze_le
  have htotal : s.freeze.stats.totalNodes = s.graph.nodeCount := List.length_range
  refine ⟨by omega, ?_, ?_, hedges, ?_, ?_⟩
  · have hclasses : s.freeze.stats.equivalenceClasses ≤ s.freeze.stats.totalNodes := Nat.sub_le _ _
    omega
  · exact Nat.lt_of_le_of_lt hmerged (by omega)
  · exact Nat.lt_of_le_of_lt (foldl_max_le_foldl_add _ (Nat.le_refl 0)) hedges
  · change (Decimal.Dyadic.ofFloat (if (s.freeze.sets.values.map IdSet.size).isEmpty then 0 else
      Float.ofNat s.freeze.stats.totalEdges /
        Float.ofNat (s.freeze.sets.values.map IdSet.size).length)).exponent ≤ 15
    split
    · decide
    · rename_i hne
      have hlength : (s.freeze.sets.values.map IdSet.size).length = s.freeze.sets.size := by
        rw [List.length_map, values_eq_map_snd, List.length_map, Std.ExtTreeMap.length_toList]
      refine Json.exponent_ofFloat_div_le hedges (by omega) fun hzero => hne ?_
      exact List.isEmpty_iff.mpr (List.length_eq_zero_iff.mp hzero)

/-- **The snapshot of a state that holds narrow names can be read.** -/
theorem writable_freeze (ht : s.Traced (· < Id.bound))
    (hsubsumed : ∀ n, (s.classes.subsumed n).Ascending) (hnodes : s.graph.nodeCount ≤ Id.bound)
    (hedges : s.freeze.stats.totalEdges < Count.bound) : s.freeze.Writable := by
  have hrep : ∀ {r}, r ∈ (s.classes.representativesOf s.graph.nodeIds).toList →
      s.Traceable (· < Id.bound) r := by
    intro r hr
    obtain ⟨n, hn, rfl⟩ := mem_representativesOf_nodeIds.mp hr
    exact ht.representative (.inr hn)
  refine ⟨fun {r set} hset => ?_, fun {n r} hr => ?_, fun {r members} hmembers => ?_,
    writable_stats_freeze hnodes hedges⟩
  · rw [getElem?_sets_freeze] at hset
    split at hset
    · rename_i hlisted
      cases hset
      exact ⟨(hrep hlisted.1).lt hnodes, fun o ho => (ht.objects ho).lt hnodes⟩
    · cases hset
  · rw [getElem?_representatives_freeze] at hr
    split at hr
    · rename_i hlisted
      cases hr
      obtain ⟨hn, hrn⟩ := ht.merged hlisted.2
      exact ⟨hn.lt hnodes, hrn.lt hnodes⟩
    · cases hr
  · rw [getElem?_classes_freeze] at hmembers
    split at hmembers
    · rename_i hlisted
      cases hmembers
      have hr := hrep hlisted.1
      exact ⟨hr.lt hnodes, hsubsumed r, fun x hx => (ht.subsumed hr hx).lt hnodes⟩
    · cases hmembers

end Solver

open Solver

/-- **The snapshot of a reachable state is read back from each of its texts**, whatever order these
list the entries of the tables and the members of the classes in. The operations and the sets at the
start name numbers of 32 bits, so does the graph, and the edges are counted in 64 bits: then the
text can be read, and the snapshot read lists the same as the one written and answers every question
alike. -/
theorem agrees_reread_freeze {p : Problem} {s : Solver} (hp : p.Made)
    (hstore : ∀ {r o}, o ∈ p.store.get r → o < Id.bound) (h : Reachable .narrow p s)
    (hnodes : s.graph.nodeCount ≤ Id.bound) (hedges : s.freeze.stats.totalEdges < Count.bound)
    {a : Snapshot.Arrangement} (ha : a.Of s.freeze) :
    ∃ g, Snapshot.ofText? a.toText = some g ∧ g.Agrees s.freeze := by
  have htraced : s.Traced (· < Id.bound) := Reachable.traced hp hstore h
  have hwritable := writable_freeze htraced (h.ascending_subsumed hp) hnodes hedges
  obtain ⟨x, hx⟩ := ha.ofText?_toText hwritable
  exact ⟨_, hx, Snapshot.agrees_withAverage _ x⟩

/-- The snapshot of the sample analysis, in no particular order. -/
def sampleArrangement : Snapshot.Arrangement where
  kind := .steensgaard
  sets := [(9, .ofList [1, 40]), (0, .ofList [1]), (7, .ofList [13]), (2, .ofList [8])]
  representatives := [(8, 9), (3, 7), (12, 7), (4, 2), (10, 9), (5, 2), (11, 7), (6, 2)]
  classes := [(9, [10, 8, 9]), (2, [4, 6, 2, 5]), (7, [12, 3, 11, 7])]
  stats := sampleAnalyzed.freeze.stats

theorem of_sampleArrangement : sampleArrangement.Of sampleAnalyzed.freeze where
  kind := by decide +kernel
  sets := by decide +kernel
  representatives := by decide +kernel
  classes := by decide +kernel
  members := by
    change ∀ entry ∈ [(9, [10, 8, 9]), (2, [4, 6, 2, 5]), (7, [12, 3, 11, 7])], _
    simp only [List.forall_mem_cons, List.not_mem_nil, false_imp_iff, implies_true, and_true]
    exact ⟨⟨.ofList [8, 9, 10], by decide +kernel, by decide⟩,
      ⟨.ofList [2, 4, 5, 6], by decide +kernel, by decide⟩,
      ⟨.ofList [3, 7, 11, 12], by decide +kernel, by decide⟩⟩
  stats := rfl

/-- The sample analysis lists merged nodes, classes of more than one node and a set with an object
that is no node of the graph; all of it is read back. -/
theorem agrees_reread_freeze_sample :
    sampleAnalyzed.freeze.pointsTo 8 = [1, 40] ∧ sampleAnalyzed.freeze.representative 5 = 2 ∧
      sampleAnalyzed.freeze.members 5 = .ofList [2, 4, 5, 6] ∧
      ∃ g, Snapshot.ofText? sampleArrangement.toText = some g ∧
        g.Agrees sampleAnalyzed.freeze := by
  have hhistory : Reachable .narrow sampleProblem sampleHistory := by
    refine .apply (.connect (.ofList [(4, [3])])) (.apply (.hand (.mergeInto 5 2))
      (.apply (.hand .dequeue) (.apply .enqueueNodes (.start ofProblem_sampleProblem) ?_) ?_) ?_) ?_
    · exact fun _ hn => absurd hn List.not_mem_nil
    · exact fun _ hn => absurd hn List.not_mem_nil
    · change ∀ n ∈ [5, 2], n < Id.bound
      decide
    · exact fun _ hn => absurd hn List.not_mem_nil
  have hadded : Reachable .narrow sampleProblem
      (sampleHistory.addObjects 9 (.ofList [40, 1])).1 := by
    refine .apply (.hand (.addObjects 9 (.ofList [40, 1]))) hhistory ?_
    change ∀ n ∈ [9, 1, 40], n < Id.bound
    decide
  have hanalyzed : Reachable .narrow sampleProblem sampleAnalyzed := by
    rw [sampleAnalyzed]
    exact hadded.analyze
  refine ⟨by decide +kernel, by decide +kernel, by decide +kernel, ?_⟩
  refine agrees_reread_freeze sampleProblem_made (fun {r o} ho => ?_) hanalyzed (by decide +kernel)
    (by decide +kernel) of_sampleArrangement
  exact absurd (Store.get_empty r ▸ ho) (IdSet.not_mem_empty o)

end PointsTo
