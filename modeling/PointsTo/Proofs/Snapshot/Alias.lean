import PointsTo.Proofs.Listing
import PointsTo.Proofs.Snapshot.Text

/-!
# Aliases in any snapshot

The alias questions are answered from the representative of each node and from the listing of its
set, which a snapshot that was read from a text may give in any order. Their laws do not rest on
that order: two nodes must alias if both list the same single object, and may alias if they share a
representative or the walk over both listings meets.

What a listing is asked does rest on its order. Nothing is found that is not listed, and everything
that is listed is found where listings are ordered. Reading keeps every listing as the text gives
it, and one that does not ascend, though it has no repetitions, hides an object.

## Main definitions

* `Snapshot.LawfulAliases`: the laws of the alias questions
* `Snapshot.AnswersAsListed`: what the answers tell of the listings
* `Snapshot.FaithfulListings`: the listings ascend, and the answers go by them
* `Snapshot.relist`: another listing for the class of a node

## Main results

* `mustAlias_iff`, `mayAlias_iff`: the alias questions in terms of listings
* `lawfulAliases`: the alias questions are lawful in every snapshot
* `answersAsListed`: what the answers of every snapshot tell of its listings
* `faithfulListings_iff`: ascending listings are all that the answers need
* `writable_of_ofText?`: what was read can be written again
* `exists_ofText?_relist`: a listing in a text can be exchanged for any other one
* `listings_of_text`: when what was read is faithful
-/

namespace PointsTo.Snapshot

variable {g : Snapshot} {a b c n o : NodeId}

/-! ## Representatives and listings -/

theorem set?_congr (h : g.representative a = g.representative b) : g.set? a = g.set? b := by
  rw [set?, set?, h]

theorem pointsTo_of_none (h : g.set? n = none) : g.pointsTo n = [] := by
  rw [pointsTo, h]
  rfl

theorem pointsTo_of_some {set : IdSet} (h : g.set? n = some set) :
    g.pointsTo n = set.elements := by
  rw [pointsTo, h]
  rfl

/-- **Two nodes must alias if both list the same single object.** -/
theorem mustAlias_iff : g.mustAlias a b = true ↔ ∃ o, g.pointsTo a = [o] ∧ g.pointsTo b = [o] := by
  rw [mustAlias]
  cases ha : g.set? a with
  | none => simp [pointsTo_of_none ha]
  | some s =>
    cases hb : g.set? b with
    | none => simp [pointsTo_of_none hb]
    | some t =>
      simp only [pointsTo_of_some ha, pointsTo_of_some hb, Bool.and_eq_true, decide_eq_true_eq]
      constructor
      · rintro ⟨⟨hs, ht⟩, hfirst⟩
        obtain ⟨o, rfl⟩ := IdSet.exists_singleton_of_size hs
        obtain ⟨x, rfl⟩ := IdSet.exists_singleton_of_size ht
        obtain rfl : o = x := Option.some.inj hfirst
        exact ⟨o, rfl, rfl⟩
      · rintro ⟨o, hs, ht⟩
        rw [IdSet.size, IdSet.size, IdSet.first?, IdSet.first?, hs, ht]
        exact ⟨⟨rfl, rfl⟩, rfl⟩

/-- **Two nodes may alias if they share a representative or the walk over their listings meets.** -/
theorem mayAlias_iff : g.mayAlias a b = true ↔
    g.representative a = g.representative b ∨
      IdSet.intersects ⟨g.pointsTo a⟩ ⟨g.pointsTo b⟩ = true := by
  rw [mayAlias]
  by_cases hrep : g.representative a = g.representative b
  · simp [hrep]
  · rw [if_neg hrep, or_iff_right hrep]
    cases ha : g.set? a with
    | none => simp [pointsTo_of_none ha, IdSet.intersects]
    | some s =>
      cases hb : g.set? b with
      | none => simp [pointsTo_of_none hb, IdSet.intersects_nil]
      | some t => rw [pointsTo_of_some ha, pointsTo_of_some hb]

/-! ## The laws of the alias questions -/

/-- **The laws of the alias questions**, for all nodes: the first is reflexive and symmetric, the
second one symmetric and transitive and part of the first, and both are about classes. -/
structure LawfulAliases (g : Snapshot) : Prop where
  mayAlias_refl : ∀ a, g.mayAlias a a = true
  mayAlias_symm : ∀ a b, g.mayAlias a b = g.mayAlias b a
  mustAlias_symm : ∀ a b, g.mustAlias a b = g.mustAlias b a
  mustAlias_trans : ∀ a b c, g.mustAlias a b = true → g.mustAlias b c = true →
    g.mustAlias a c = true
  mayAlias_of_mustAlias : ∀ a b, g.mustAlias a b = true → g.mayAlias a b = true
  mayAlias_congr : ∀ a b n, g.representative b = g.representative a →
    g.mayAlias b n = g.mayAlias a n ∧ g.mayAlias n b = g.mayAlias n a
  mustAlias_congr : ∀ a b n, g.representative b = g.representative a →
    g.mustAlias b n = g.mustAlias a n ∧ g.mustAlias n b = g.mustAlias n a

/-- **The alias questions are lawful in every snapshot**, however its sets are listed and wherever
its representatives lead. -/
theorem lawfulAliases (g : Snapshot) : g.LawfulAliases where
  mayAlias_refl a := mayAlias_iff.mpr (.inl rfl)
  mayAlias_symm a b := by
    rw [Bool.eq_iff_iff, mayAlias_iff, mayAlias_iff, IdSet.intersects_comm, eq_comm]
  mustAlias_symm a b := by
    rw [Bool.eq_iff_iff, mustAlias_iff, mustAlias_iff]
    simp only [and_comm]
  mustAlias_trans a b c hab hbc := by
    obtain ⟨o, ha, hb⟩ := mustAlias_iff.mp hab
    obtain ⟨x, hb', hc⟩ := mustAlias_iff.mp hbc
    obtain rfl : o = x := List.head_eq_of_cons_eq (hb.symm.trans hb')
    exact mustAlias_iff.mpr ⟨o, ha, hc⟩
  mayAlias_of_mustAlias a b hmust := by
    obtain ⟨o, ha, hb⟩ := mustAlias_iff.mp hmust
    refine mayAlias_iff.mpr (.inr ?_)
    rw [ha, hb, IdSet.intersects_cons, if_neg (Nat.lt_irrefl o), if_neg (Nat.lt_irrefl o)]
  mayAlias_congr a b n h := by
    simp only [mayAlias, h, set?_congr h, and_self]
  mustAlias_congr a b n h := by
    simp only [mustAlias, set?_congr h, and_self]

/-! ## Answers and listings -/

/-- **What the answers of a snapshot tell of its listings.** Nothing is found that is not listed;
where listings are ordered, all that is listed is found; and a listing without repetitions that does
not ascend hides an object from each of the questions. -/
structure AnswersAsListed (g : Snapshot) : Prop where
  mem_of_contains : ∀ n o, g.contains n o = true → o ∈ g.pointsTo n
  contains_iff : ∀ n, (g.pointsTo n).Pairwise (· ≤ ·) →
    ∀ o, g.contains n o = true ↔ o ∈ g.pointsTo n
  contains_misses : ∀ n, (g.pointsTo n).Nodup → ¬ (g.pointsTo n).Pairwise (· < ·) →
    ∃ o ∈ g.pointsTo n, g.contains n o = false
  common_of_mayAlias : ∀ a b, g.representative a ≠ g.representative b → g.mayAlias a b = true →
    ∃ o ∈ g.pointsTo a, o ∈ g.pointsTo b
  mayAlias_iff : ∀ a b, g.representative a ≠ g.representative b →
    (g.pointsTo a).Pairwise (· ≤ ·) → (g.pointsTo b).Pairwise (· ≤ ·) →
      (g.mayAlias a b = true ↔ ∃ o ∈ g.pointsTo a, o ∈ g.pointsTo b)
  mayAlias_misses : ∀ a, (g.pointsTo a).Nodup → ¬ (g.pointsTo a).Pairwise (· < ·) →
    ∃ o ∈ g.pointsTo a, ∀ b, g.representative a ≠ g.representative b → g.pointsTo b = [o] →
      g.mayAlias a b = false

theorem answersAsListed (g : Snapshot) : g.AnswersAsListed where
  mem_of_contains n o := IdSet.mem_of_contains
  contains_iff n h o := IdSet.Ordered.contains_iff_mem h
  contains_misses n hnodup hnot := by
    by_contra hall
    push Not at hall
    refine hnot ((IdSet.ascending_iff_contains hnodup).mpr fun o ho => ?_)
    exact Bool.eq_true_of_not_eq_false (hall o ho)
  common_of_mayAlias a b hapart hmay :=
    IdSet.exists_mem_of_intersects ((Snapshot.mayAlias_iff.mp hmay).resolve_left hapart)
  mayAlias_iff a b hapart ha hb :=
    (Snapshot.mayAlias_iff.trans (or_iff_right hapart)).trans (IdSet.Ordered.intersects_iff ha hb)
  mayAlias_misses a hnodup hnot := by
    by_contra hall
    push Not at hall
    refine hnot ((IdSet.ascending_iff_intersects (s := ⟨g.pointsTo a⟩) hnodup).mpr fun o ho => ?_)
    obtain ⟨b, hapart, hb, hmay⟩ := hall o ho
    have hmay := Bool.eq_true_of_not_eq_false hmay
    have hmeets := (Snapshot.mayAlias_iff.mp hmay).resolve_left hapart
    rwa [hb] at hmeets

/-- **The listings of a snapshot are sets in ascending order, and the answers go by them.** -/
structure FaithfulListings (g : Snapshot) : Prop where
  ascending : ∀ n, (g.pointsTo n).Pairwise (· < ·)
  contains_iff : ∀ n o, g.contains n o = true ↔ o ∈ g.pointsTo n
  mayAlias_iff : ∀ a b, g.representative a ≠ g.representative b →
    (g.mayAlias a b = true ↔ ∃ o ∈ g.pointsTo a, o ∈ g.pointsTo b)

/-- Ascending listings are all that the answers need. -/
theorem faithfulListings_iff :
    g.FaithfulListings ↔ ∀ n, (g.pointsTo n).Pairwise (· < ·) := by
  constructor
  · exact fun h => h.ascending
  · intro h
    have hordered : ∀ n, (g.pointsTo n).Pairwise (· ≤ ·) := fun n => (h n).imp Nat.le_of_lt
    exact ⟨h, fun n => g.answersAsListed.contains_iff n (hordered n),
      fun a b hapart => g.answersAsListed.mayAlias_iff a b hapart (hordered a) (hordered b)⟩

/-! ## Listings in texts -/

theorem mem_of_getElem?_tableOfList {α : Type} {entries : List (NodeId × α)} {k : NodeId} {v : α}
    (h : (tableOfList entries)[k]? = some v) : (k, v) ∈ entries := by
  have hfold : ∀ table : Std.ExtTreeMap NodeId α,
      (entries.foldl (fun table entry => table.insert entry.1 entry.2) table)[k]? = some v →
        (k, v) ∈ entries ∨ table[k]? = some v := by
    clear h
    induction entries with
    | nil => exact fun _ h => .inr h
    | cons entry entries ih =>
      intro table h
      rcases ih _ h with hmem | hinsert
      · exact .inl (List.mem_cons_of_mem entry hmem)
      · rw [Std.ExtTreeMap.getElem?_insert] at hinsert
        split at hinsert
        · rename_i heq
          cases hinsert
          rw [← Nat.compare_eq_eq.mp heq]
          exact .inl List.mem_cons_self
        · exact .inr hinsert
  rcases hfold ∅ h with hmem | hempty
  · exact hmem
  · cases (Std.ExtTreeMap.getElem?_empty (a := k)).symm.trans hempty

/-- **What was read can be written again**, but for its figures. The members of a class were put in
order when they were read. -/
theorem writable_of_ofText? {text : String} {stats : SnapshotStats} (hread : ofText? text = some g)
    (hstats : stats.Writable) : Writable { g with stats := stats } := by
  obtain ⟨j, -, hj⟩ := Option.bind_eq_some_iff.mp hread
  rw [ofJson?] at hj
  split at hj
  · obtain ⟨kind, -, hj⟩ := Option.bind_eq_some_iff.mp hj
    obtain ⟨sets, hsets, hj⟩ := Option.bind_eq_some_iff.mp hj
    obtain ⟨representatives, hrepresentatives, hj⟩ := Option.bind_eq_some_iff.mp hj
    obtain ⟨classes, hclasses, hj⟩ := Option.bind_eq_some_iff.mp hj
    obtain ⟨figures, -, hj⟩ := Option.bind_eq_some_iff.mp hj
    obtain ⟨_, -, hsets⟩ := Option.bind_eq_some_iff.mp hsets
    obtain ⟨_, -, hrepresentatives⟩ := Option.bind_eq_some_iff.mp hrepresentatives
    obtain ⟨_, -, hclasses⟩ := Option.bind_eq_some_iff.mp hclasses
    cases hj
    refine ⟨fun {r set} hr => ?_, fun {n r} hr => ?_, fun {r members} hr => ?_, hstats⟩
    · obtain ⟨hkey, _, hvalue⟩ :=
        Json.exists_of_mem_idTable? hsets _ (mem_of_getElem?_tableOfList hr)
      exact ⟨hkey, IdSet.lt_of_ofJson? hvalue⟩
    · obtain ⟨hkey, _, hvalue⟩ :=
        Json.exists_of_mem_idTable? hrepresentatives _ (mem_of_getElem?_tableOfList hr)
      exact ⟨hkey, Json.lt_of_natBelow? hvalue⟩
    · obtain ⟨⟨key, xs⟩, hentry, heq⟩ := List.mem_map.mp (mem_of_getElem?_tableOfList hr)
      cases heq
      obtain ⟨hkey, _, hvalue⟩ := Json.exists_of_mem_idTable? hclasses _ hentry
      refine ⟨hkey, IdSet.ascending_ofList xs, fun x hx => ?_⟩
      exact Json.lt_of_mem_ids? hvalue x ((IdSet.mem_ofList xs x).mp hx)
  · cases hj

/-- The snapshot with another listing for the class of a node, and without figures. -/
def relist (g : Snapshot) (n : NodeId) (set : IdSet) : Snapshot :=
  { g with sets := g.sets.insert (g.representative n) set, stats := {} }

section Relist

variable {set : IdSet} {text : String}

theorem Writable.representative_lt (h : g.Writable) (hn : n < Id.bound) :
    g.representative n < Id.bound := by
  rw [representative, Std.ExtTreeMap.getD_eq_getD_getElem?]
  cases hrep : g.representatives[n]? with
  | none => exact hn
  | some r => exact (h.representatives hrep).2

theorem getElem?_sets_relist (g : Snapshot) (n : NodeId) (set : IdSet) (r : NodeId) :
    (g.relist n set).sets[r]? = if g.representative n = r then some set else g.sets[r]? := by
  rw [relist, Std.ExtTreeMap.getElem?_insert]
  simp only [Nat.compare_eq_eq]

theorem pointsTo_relist_self : (g.relist n set).pointsTo n = set.elements := by
  refine pointsTo_of_some ?_
  exact (getElem?_sets_relist g n set _).trans (if_pos rfl)

theorem pointsTo_relist_of_ne (h : g.representative a ≠ g.representative n) :
    (g.relist n set).pointsTo a = g.pointsTo a := by
  have hset : (g.relist n set).set? a = g.set? a :=
    (getElem?_sets_relist g n set _).trans (if_neg h.symm)
  rw [pointsTo, pointsTo, hset]

/-- **What was read can be written again with another listing.** -/
theorem writable_relist (hread : ofText? text = some g) (hn : n < Id.bound)
    (hset : ∀ o ∈ set, o < Id.bound) : (g.relist n set).Writable := by
  have hstats : ({} : SnapshotStats).Writable :=
    ⟨by decide, by decide, by decide, by decide, by decide, by decide⟩
  have hwritable := writable_of_ofText? hread hstats
  refine ⟨fun {r listed} hr => ?_, hwritable.representatives, hwritable.classes, hstats⟩
  rw [getElem?_sets_relist] at hr
  split at hr
  · rename_i heq
    cases hr
    exact ⟨heq ▸ hwritable.representative_lt hn, hset⟩
  · exact hwritable.sets hr

/-- **A listing in a text can be exchanged for any other one**, in any order and with any
repetitions. -/
theorem exists_ofText?_relist (hread : ofText? text = some g) (hn : n < Id.bound)
    {xs : List NodeId} (hxs : ∀ o ∈ xs, o < Id.bound) :
    ∃ text' g', ofText? text' = some g' ∧ g'.pointsTo n = xs ∧
      ∀ a, g.representative a ≠ g.representative n → g'.pointsTo a = g.pointsTo a := by
  have hset : ∀ o ∈ (⟨xs⟩ : IdSet), o < Id.bound := hxs
  obtain ⟨x, hrelisted⟩ := (writable_relist hread hn hset).ofText?_toText
  exact ⟨_, _, hrelisted, pointsTo_relist_self, fun _ ha => pointsTo_relist_of_ne ha⟩

end Relist

/-- **Reading keeps listings as they are.** What was read is faithful exactly if its listings
ascend, and otherwise its answers tell of the listings no more than those of any snapshot. Nothing
rules out any listing: that of a class can be exchanged for any other one while the others stay. -/
theorem listings_of_text {text : String} (hread : ofText? text = some g) :
    (g.FaithfulListings ↔ ∀ n, (g.pointsTo n).Pairwise (· < ·)) ∧ g.AnswersAsListed ∧
      ∀ n xs, n < Id.bound → (∀ o ∈ xs, o < Id.bound) →
        ∃ text' g', ofText? text' = some g' ∧ g'.pointsTo n = xs ∧
          ∀ a, g.representative a ≠ g.representative n → g'.pointsTo a = g.pointsTo a :=
  ⟨faithfulListings_iff, g.answersAsListed, fun _ _ hn hxs => exists_ofText?_relist hread hn hxs⟩

/-- A text whose first set is listed in descending order. -/
def descendingText : String :=
  "\x7b\"kind\":\"Steensgaard\",\"points_to\":\x7b\"1\":\x7b\"elements\":[3,1]\x7d,"
    ++ "\"2\":\x7b\"elements\":[1]\x7d\x7d,\"rep_map\":\x7b\x7d,\"sub_nodes\":\x7b\x7d,"
    ++ "\"stats\":\x7b\"total_nodes\":4,\"equivalence_classes\":4,\"merged_nodes\":0,"
    ++ "\"total_edges\":3,\"max_points_to_size\":2,\"avg_points_to_size\":1.5\x7d\x7d"

theorem exists_ofText?_descendingText : ∃ g, ofText? descendingText = some g ∧
    g.pointsTo 1 = [3, 1] ∧ g.contains 1 3 = false ∧ g.representative 1 = 1 ∧
      g.representative 2 = 2 ∧ g.pointsTo 2 = [1] ∧ g.mayAlias 1 2 = false := by
  have hread : (ofText? descendingText).map (fun g =>
      (g.pointsTo 1, g.contains 1 3, g.representative 1, g.representative 2, g.pointsTo 2,
        g.mayAlias 1 2)) = some ([3, 1], false, 1, 2, [1], false) := by
    decide +kernel
  obtain ⟨g, hg, hanswers⟩ := Option.map_eq_some_iff.mp hread
  simp only [Prod.mk.injEq] at hanswers
  exact ⟨g, hg, hanswers⟩

/-- The descending listing is not faithful, and the text could as well hold a longer one that
repeats an object. -/
theorem listings_of_descendingText : ∃ g, ofText? descendingText = some g ∧
    ¬ g.FaithfulListings ∧ g.AnswersAsListed ∧ ∃ text' g', ofText? text' = some g' ∧
      g'.pointsTo 1 = [3, 4294967295, 3] ∧ g'.pointsTo 2 = [1] := by
  obtain ⟨g, hread, hone, -, hrep₁, hrep₂, htwo, -⟩ := exists_ofText?_descendingText
  obtain ⟨hfaithful, hanswers, hexchange⟩ := listings_of_text hread
  have hapart : g.representative 2 ≠ g.representative 1 := by
    rw [hrep₁, hrep₂]
    decide
  refine ⟨g, hread, fun h => ?_, hanswers, ?_⟩
  · have hascending := hfaithful.mp h 1
    rw [hone] at hascending
    exact absurd hascending (by decide)
  · obtain ⟨text', g', hread', hlisted, hothers⟩ :=
      hexchange 1 [3, 4294967295, 3] (by decide) (by decide)
    exact ⟨text', g', hread', hlisted, (hothers 2 hapart).trans htwo⟩

/-- The object 3 is listed for the node 1 but not found there, and the nodes 1 and 2 both list the
object 1 but may not alias. -/
theorem descending_listing_hides : ∃ g, ofText? descendingText = some g ∧
    g.pointsTo 1 = [3, 1] ∧ g.contains 1 3 = false ∧ ¬ (g.pointsTo 1).Pairwise (· < ·) ∧
      g.representative 1 ≠ g.representative 2 ∧ g.pointsTo 2 = [1] ∧ g.mayAlias 1 2 = false := by
  obtain ⟨g, hread, hone, hcontains, hrep₁, hrep₂, htwo, hmay⟩ := exists_ofText?_descendingText
  refine ⟨g, hread, hone, hcontains, ?_, ?_, htwo, hmay⟩
  · rw [hone]
    decide
  · rw [hrep₁, hrep₂]
    decide

end PointsTo.Snapshot
