import PointsTo.Proofs.Solver.Round

/-!
# Growth

Nothing that the solver does takes anything back: classes only merge, sets only grow, edges, memory
and callees are only added, and what was given stays as it is. `Grows` says so of two states; it is
shown here for every step that the solver is made of.

## Main definitions

* `Solver.Grows`: the second state keeps all that the first one holds

## Main results

* `Grows.join`, `Grows.unify`, `Grows.treat`, `Grows.wiring`: the steps only add
-/

namespace PointsTo.Solver

variable {s t u : Solver} {F : NodeId → NodeId → Prop} {A : SiteId → Prop}
  {R : NodeId → NodeId → Prop} {held : ClassEdges} {n o a b x y lost survivor rep : NodeId}

/-- An object lies at a node that was merged away, where the set of its class does not show it. -/
def Shelved (s : Solver) (n o : NodeId) : Prop := o ∈ s.store.get n ∧ s.representative n ≠ n

/-- **The second state keeps all that the first one holds**: what was given, and everything that was
found. Of the constraints only copies are ever added. -/
structure Grows (s t : Solver) : Prop where
  settings : t.settings = s.settings
  functions : t.functions = s.functions
  sites : t.sites = s.sites
  outsideAddresses : t.outsideAddresses = s.outsideAddresses
  addresses : t.graph.addressEdges = s.graph.addressEdges
  edges : ∀ {k x y}, k ≠ .copy → t.graph.hasEdge k x y = s.graph.hasEdge k x y
  copies : ∀ {x y}, s.graph.hasEdge .copy x y = true → t.graph.hasEdge .copy x y = true
  nodeCount : s.graph.nodeCount ≤ t.graph.nodeCount
  kinds : ∀ {n kind}, s.graph.kind? n = some kind → t.graph.kind? n = some kind
  same : ∀ {x y}, s.Same x y → t.Same x y
  pointsTo : ∀ {n o}, o ∈ s.pointsTo n → o ∈ t.pointsTo n
  shelved : ∀ {n o}, s.Shelved n o → t.Shelved n o
  allocations : ∀ {i m}, s.allocation? i = some m → t.allocation? i = some m
  calls : ∀ {i f}, s.calls.hasEdge i f = true → t.calls.hasEdge i f = true

namespace Grows

/-- What waits, what is counted and what is reported is neither given nor found. -/
theorem aside (s : Solver) {edges : Std.ExtTreeMap NodeId ClassEdges}
    {loaded : Std.ExtTreeSet NodeId} {worklist : Worklist} {counters : Counters}
    {journal : List Event} {seeded : Bool} :
    s.Grows { s with edges, loaded, worklist, counters, journal, seeded } :=
  ⟨rfl, rfl, rfl, rfl, rfl, fun _ => rfl, id, Nat.le_refl _, id, id, id, id, id, id⟩

theorem refl (s : Solver) : s.Grows s := aside s

theorem trans (h₁ : s.Grows t) (h₂ : t.Grows u) : s.Grows u where
  settings := h₂.settings.trans h₁.settings
  functions := h₂.functions.trans h₁.functions
  sites := h₂.sites.trans h₁.sites
  outsideAddresses := h₂.outsideAddresses.trans h₁.outsideAddresses
  addresses := h₂.addresses.trans h₁.addresses
  edges hk := (h₂.edges hk).trans (h₁.edges hk)
  copies h := h₂.copies (h₁.copies h)
  nodeCount := h₁.nodeCount.trans h₂.nodeCount
  kinds h := h₂.kinds (h₁.kinds h)
  same h := h₂.same (h₁.same h)
  pointsTo h := h₂.pointsTo (h₁.pointsTo h)
  shelved h := h₂.shelved (h₁.shelved h)
  allocations h := h₂.allocations (h₁.allocations h)
  calls h := h₂.calls (h₁.calls h)

theorem hasNode (h : s.Grows t) (hn : s.graph.hasNode n = true) : t.graph.hasNode n = true := by
  rw [ConstraintGraph.hasNode_iff] at hn ⊢
  exact Nat.lt_of_lt_of_le hn h.nodeCount

theorem hasEdge {k : ConstraintKind} (h : s.Grows t) (he : s.graph.hasEdge k x y = true) :
    t.graph.hasEdge k x y = true := by
  by_cases hk : k = .copy
  · subst hk
    exact h.copies he
  · rwa [h.edges hk]

theorem edge {k : ConstraintKind} (h : s.Grows t) (hk : k ≠ .copy)
    (he : t.graph.hasEdge k x y = true) : s.graph.hasEdge k x y = true :=
  (h.edges hk).symm.trans he

theorem addressEdges (h : s.Grows t) : t.addressEdges = s.addressEdges := by
  rw [Solver.addressEdges, Solver.addressEdges, h.addresses, h.outsideAddresses]

/-- A step that changes sets and nothing else. -/
theorem store (sets : Store) (h : ∀ {r o}, o ∈ s.store.get r → o ∈ sets.get r) :
    s.Grows { s with store := sets } :=
  ⟨rfl, rfl, rfl, rfl, rfl, fun _ => rfl, id, Nat.le_refl _, id, id, h,
    fun ho => ⟨h ho.1, ho.2⟩, id, id⟩

theorem addObject (s : Solver) (n o : NodeId) : s.Grows (s.addObject n o).1 := by
  refine store (s.store.insert (s.representative n) o).1 fun {r o'} h => ?_
  rw [Store.get_insert]
  split
  · rename_i hr
    exact (IdSet.mem_insert ..).mpr (.inr (hr ▸ h))
  · exact h

theorem addObjects (s : Solver) (n : NodeId) (objects : IdSet) :
    s.Grows (s.addObjects n objects).1 := by
  refine store (s.store.union (s.representative n) objects).1 fun {r o} h => ?_
  rw [Store.get_union]
  split
  · rename_i hr
    exact (IdSet.mem_union ..).mpr (.inl (hr.1 ▸ h))
  · exact h

theorem addObjectsOf (s : Solver) (n m : NodeId) : s.Grows (s.addObjectsOf n m).1 := by
  refine store (s.store.unionFrom (s.representative n) (s.representative m)).1 fun {r o} h => ?_
  rw [Store.get_unionFrom]
  split
  · rename_i hr
    exact (IdSet.mem_union ..).mpr (.inl (hr.1 ▸ h))
  · exact h

/-! ## Merging -/

/-- **A merge only adds**: the set of a class moves with the class. -/
theorem join (hv : s.classes.Valid) (hj : s.Joinable a b lost survivor) :
    s.Grows (s.join lost survivor) := by
  have hlost := hj.lost_eq hv
  have hsame : ∀ {x y}, s.Same x y → (s.join lost survivor).Same x y := fun h =>
    h.join hv hlost survivor
  have hpts : ∀ {n o}, o ∈ s.pointsTo n → o ∈ (s.join lost survivor).pointsTo n := by
    intro n o ho
    rw [mem_pointsTo] at ho
    rw [mem_pointsTo, representative_join hv hlost, mem_get_join s hj.ne]
    by_cases hn : s.representative n = lost
    · rw [if_pos hn, if_pos rfl]
      exact .inr (hn ▸ ho)
    · rw [if_neg hn]
      by_cases hs : s.representative n = survivor
      · rw [if_pos hs]
        exact .inl (hs ▸ ho)
      · rw [if_neg hs]
        exact ⟨hn, ho⟩
  have hshelved : ∀ {n o}, s.Shelved n o → (s.join lost survivor).Shelved n o := by
    rintro n o ⟨ho, hmerged⟩
    have hnl : n ≠ lost := fun heq => hmerged (heq ▸ hlost)
    have hns : n ≠ survivor := fun heq => hmerged (heq ▸ hj.survivor_eq hv)
    refine ⟨(mem_get_join s hj.ne).mpr ?_, ?_⟩
    · rw [if_neg hns]
      exact ⟨hnl, ho⟩
    · rw [representative_join hv hlost]
      split
      · exact hns.symm
      · exact hmerged
  rw [join_eq] at hsame hpts hshelved ⊢
  exact ⟨rfl, rfl, rfl, rfl, rfl, fun _ => rfl, id, Nat.le_refl _, id, hsame, hpts, hshelved, id,
    id⟩

theorem enqueue (s : Solver) (n : NodeId) : s.Grows (s.enqueue n).1 := aside s

theorem unify (hv : s.classes.Valid) (a b : NodeId) : s.Grows (s.unify a b).1 := by
  rcases s.unify_cases a b with ⟨-, heq⟩ | ⟨lost, survivor, hj, heq⟩
  · rw [heq]
    exact refl s
  · rw [heq]
    exact (join hv hj).trans (enqueue _ survivor)

theorem mergeInto (hv : s.classes.Valid) (n m : NodeId) : s.Grows (s.mergeInto n m).1 := by
  rcases s.mergeInto_cases n m with ⟨-, heq⟩ | ⟨hj, heq⟩
  · rw [heq]
    exact refl s
  · rw [heq]
    exact join hv hj

theorem joins (hv : s.ValidBut held) (h : Joins R s t) : s.Grows t := by
  induction h with
  | refl => exact refl s
  | @tail t counters a b hst _ _ ih =>
    exact (ih.trans (aside t)).trans (unify ((hst.validBut hv).count counters).classes a b)

theorem treat (hv : s.Valid) (hrep : s.representative rep = rep) : s.Grows (s.treat rep).1 := by
  obtain ⟨edges, loaded, held, hvalid, hjoins⟩ := joins_treat hv hrep
  exact (aside s).trans (joins hvalid hjoins)

/-! ## Connecting -/

theorem connectCopy (s : Solver) (added : CopySet) (a b : NodeId) :
    s.Grows (s.connectCopy added a b).1 := by
  rcases s.connectCopy_cases added a b with ⟨heq, -⟩ | ⟨-, -, heq⟩
  · rw [heq]
    exact refl s
  · rw [heq]
    refine ⟨rfl, rfl, rfl, rfl, rfl, fun {k x y} hk => ?_, fun {x y} h => ?_, Nat.le_refl _, id,
      id, id, id, id, id⟩
    · rw [Bool.eq_iff_iff, hasEdge_withCopy]
      exact or_iff_right fun h => hk h.1
    · exact hasEdge_withCopy.mpr (.inr h)

theorem createAllocation {i : SiteId} (hi : s.allocation? i = none) :
    s.Grows (s.createAllocation i).1 := by
  have hsets : ∀ {r o}, o ∈ s.store.get r → o ∈ (s.createAllocation i).1.store.get r := by
    intro r o ho
    rw [get_createAllocation]
    split
    · exact (IdSet.mem_insert ..).mpr (.inr ho)
    · exact ho
  refine ⟨rfl, rfl, rfl, rfl, rfl, fun _ => hasEdge_createAllocation .., fun h => ?_, ?_,
    fun {n kind} h => ?_, id, hsets, fun h => ⟨hsets h.1, h.2⟩, fun {j m} h => ?_, id⟩
  · rwa [hasEdge_createAllocation]
  · rw [nodeCount_createAllocation]
    exact Nat.le_add_right _ 2
  · have hn : n < s.graph.nodeCount := (Array.getElem?_eq_some_iff.mp h).1
    rw [kind?_createAllocation, if_neg (Nat.ne_of_lt hn),
      if_neg (Nat.ne_of_lt (Nat.lt_succ_of_lt hn))]
    exact h
  · rw [allocation?_createAllocation]
    split
    · rename_i hj
      rw [hj, hi] at h
      cases h
    · exact h

theorem wiring {u v : Solver × CopySet} (h : Wiring F A u v) : u.1.Grows v.1 := by
  refine h.keeps (I := fun v => u.1.Grows v.1) (fun hw ht => ht.trans ?_) (refl u.1)
  cases hw with
  | report e => exact aside _
  | copy hab => exact connectCopy ..
  | memory hi hs hr hm => exact connectCopy ..
  | allocate hi hs hm => exact createAllocation hm

theorem addCallee (hc : s.calls.Valid) (site : CallSite) (callee : FunctionDecl) :
    s.Grows (s.addCallee site callee) :=
  ⟨rfl, rfl, rfl, rfl, rfl, fun _ => rfl, id, Nat.le_refl _, id, id, id, id, id,
    fun h => hc.hasEdge_insert.mpr (.inr h)⟩

theorem closeRound (r : Round) : r.solver.Grows (closeRound r) := by
  have hcalls : ∀ {i f}, r.solver.calls.hasEdge i f = true →
      (Solver.closeRound r).calls.hasEdge i f = true := fun h => (hasEdge_closeRound ..).trans h
  rw [closeRound_eq, enqueueAll_eq] at hcalls ⊢
  exact ⟨rfl, rfl, rfl, rfl, rfl, fun _ => rfl, id, Nat.le_refl _, id, id, id, id, id, hcalls⟩

theorem recordRound (s : Solver) (connected : IdSet) :
    s.Grows { s with calls := (s.calls.recordRound connected s.siteIds).1 } :=
  ⟨rfl, rfl, rfl, rfl, rfl, fun _ => rfl, id, Nat.le_refl _, id, id, id, id, id,
    fun h => (CallGraph.hasEdge_recordRound ..).trans h⟩

end Grows

end PointsTo.Solver
