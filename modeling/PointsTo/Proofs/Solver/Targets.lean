import PointsTo.Proofs.Solver.Run

/-!
# What the built-in source finds

The built-in source of call targets answers the callees that the points-to sets show and that are
not connected. So after a round that asked it, a callee is connected when it was connected before or
was shown.

## Main definitions

* `Solver.Shows`: the set of the function pointer of a site shows a callee

## Main results

* `mem_newTargets`: the answer of the built-in source
* `CallEdges.Tight.ext`, `tight_newTargets`: the answer is known by its members
* `resolve_newTargets`: it can be connected
* `hasEdge_connect_newTargets`: the call graph after a round
-/

namespace PointsTo

/-! ## Edges by site -/

namespace CallEdges

variable {e : CallEdges} {i j : SiteId} {f g : FunctionId} {fs : List FunctionId}

theorem mem_get_insert : f ∈ (e.insert i g).get j ↔ (i = j ∧ f = g) ∨ f ∈ e.get j := by
  unfold insert get
  rw [Std.ExtTreeMap.getD_insert]
  by_cases hij : i = j
  · subst hij
    simp [IdSet.mem_insert]
  · simp [hij]

theorem mem_get_foldl_insert :
    f ∈ (fs.foldl (fun found callee => found.insert i callee) e).get j ↔
      (i = j ∧ f ∈ fs) ∨ f ∈ e.get j := by
  induction fs generalizing e with
  | nil => simp
  | cons g fs ih =>
    rw [List.foldl_cons, ih, mem_get_insert, List.mem_cons, and_or_left, or_assoc, or_left_comm]

theorem get_eq (e : CallEdges) (i : SiteId) : e.get i = e.targets[i]?.getD ∅ :=
  Std.ExtTreeMap.getD_eq_getD_getElem?

/-- Every site that is listed has callees, and they ascend. -/
def Tight (e : CallEdges) : Prop :=
  ∀ (i : SiteId) (callees : IdSet), e.targets[i]? = some callees →
    callees.Ascending ∧ ∃ f, f ∈ callees

namespace Tight

theorem get (h : e.Tight) (i : SiteId) : (e.get i).Ascending := by
  rw [get_eq]
  cases hi : e.targets[i]? with
  | none => exact IdSet.ascending_empty
  | some callees => exact (h i callees hi).1

theorem insert (h : e.Tight) (i : SiteId) (f : FunctionId) : (e.insert i f).Tight := by
  intro j callees hj
  change (e.targets.insert i ((e.get i).insert f))[j]? = some callees at hj
  rw [Std.ExtTreeMap.getElem?_insert] at hj
  split at hj
  · cases hj
    exact ⟨IdSet.ascending_insert (h.get i) f, f, (IdSet.mem_insert ..).mpr (.inl rfl)⟩
  · exact h j callees hj

theorem foldl_insert (h : e.Tight) (i : SiteId) (fs : List FunctionId) :
    (fs.foldl (fun found callee => found.insert i callee) e).Tight := by
  induction fs generalizing e with
  | nil => exact h
  | cons f fs ih => exact ih (h.insert i f)

/-- A site that is listed has a callee, so a table with the same callees has to list it too. -/
theorem getElem?_congr {e' : CallEdges} {callees : IdSet} (h : e.Tight) (h' : e'.Tight)
    (hmem : ∀ i f, f ∈ e.get i ↔ f ∈ e'.get i) (hi : e.targets[i]? = some callees) :
    e'.targets[i]? = some callees := by
  have hget : e.get i = callees := by
    rw [get_eq, hi]
    rfl
  obtain ⟨hascending, f, hf⟩ := h i callees hi
  cases hi' : e'.targets[i]? with
  | none =>
    have hf' := (hmem i f).mp (hget ▸ hf)
    rw [get_eq, hi'] at hf'
    exact absurd hf' List.not_mem_nil
  | some callees' =>
    refine congrArg some (IdSet.eq_of_mem_iff (h' i callees' hi').1 hascending fun g => ?_)
    rw [← hget, hmem i g, get_eq, hi']
    rfl

/-- **Edges without empty entries are known by their members.** -/
theorem ext {e' : CallEdges} (h : e.Tight) (h' : e'.Tight)
    (hmem : ∀ i f, f ∈ e.get i ↔ f ∈ e'.get i) : e = e' := by
  have htargets : e.targets = e'.targets := by
    refine Std.ExtTreeMap.ext_getElem? fun i => Option.ext fun callees => ?_
    exact ⟨h.getElem?_congr h' hmem, h'.getElem?_congr h fun i f => (hmem i f).symm⟩
  obtain ⟨targets⟩ := e
  obtain ⟨targets'⟩ := e'
  exact congrArg CallEdges.mk htargets

end Tight

theorem not_mem_get_empty : ¬ f ∈ (∅ : CallEdges).get i := by
  change ¬ f ∈ (∅ : Std.ExtTreeMap SiteId IdSet).getD i ∅
  rw [Std.ExtTreeMap.getD_empty]
  exact List.not_mem_nil

end CallEdges

namespace Solver

variable {s t : Solver} {i : SiteId} {f : FunctionId} {site : CallSite}

/-- **The set of the function pointer of a site shows a callee**: it holds the object of the
callee. -/
def Shows (s : Solver) (i : SiteId) (f : FunctionId) : Prop :=
  ∃ site object callee, s.sites[i]? = some site ∧ object ∈ s.pointsTo site.funPtr ∧
    s.functions.forObject? object = some callee ∧ callee.id = f

theorem mem_newCallees :
    f ∈ s.newCallees i site ↔ (∃ object callee, object ∈ s.pointsTo site.funPtr ∧
      s.functions.forObject? object = some callee ∧ callee.id = f) ∧
        ¬ s.calls.hasEdge i f = true := by
  unfold newCallees
  rw [List.mem_filterMap]
  constructor
  · rintro ⟨object, hobject, hf⟩
    split at hf
    · cases hf
    · rename_i callee hcallee
      split_ifs at hf with hedge
      cases hf
      exact ⟨⟨object, callee, hobject, hcallee, rfl⟩, hedge⟩
  · rintro ⟨⟨object, callee, hobject, hcallee, rfl⟩, hedge⟩
    refine ⟨object, hobject, ?_⟩
    rw [hcallee]
    exact if_neg hedge

/-- **The answer of the built-in source**: what is shown and not connected. Every site in turn adds
the callees that its own pointer shows. -/
theorem mem_newTargets : f ∈ s.newTargets.get i ↔ s.Shows i f ∧ ¬ s.calls.hasEdge i f = true := by
  have hfold : ∀ (entries : List (SiteId × CallSite)) (found : CallEdges),
      f ∈ (entries.foldl (fun found entry => (s.newCallees entry.1 entry.2).foldl
        (fun found callee => found.insert entry.1 callee) found) found).get i ↔
        (∃ site, (i, site) ∈ entries ∧ f ∈ s.newCallees i site) ∨ f ∈ found.get i := by
    intro entries
    induction entries with
    | nil => simp
    | cons entry entries ih =>
      obtain ⟨j, site⟩ := entry
      intro found
      rw [List.foldl_cons, ih, CallEdges.mem_get_foldl_insert]
      constructor
      · rintro (⟨site', hmem, hf⟩ | ⟨rfl, hf⟩ | hf)
        · exact .inl ⟨site', List.mem_cons_of_mem _ hmem, hf⟩
        · exact .inl ⟨site, List.mem_cons_self, hf⟩
        · exact .inr hf
      · rintro (⟨site', hmem, hf⟩ | hf)
        · rcases List.mem_cons.mp hmem with heq | hmem
          · obtain ⟨rfl, rfl⟩ := Prod.mk.inj heq
            exact .inr (.inl ⟨rfl, hf⟩)
          · exact .inl ⟨site', hmem, hf⟩
        · exact .inr (.inr hf)
  unfold newTargets
  rw [hfold, or_iff_left CallEdges.not_mem_get_empty]
  simp only [Std.ExtTreeMap.mem_toList_iff_getElem?_eq_some, mem_newCallees]
  constructor
  · rintro ⟨site, hsite, ⟨object, callee, hshown⟩, hedge⟩
    exact ⟨⟨site, object, callee, hsite, hshown⟩, hedge⟩
  · rintro ⟨⟨site, object, callee, hsite, hshown⟩, hedge⟩
    exact ⟨site, hsite, ⟨object, callee, hshown⟩, hedge⟩

theorem tight_newTargets (s : Solver) : s.newTargets.Tight := by
  have hempty : (∅ : CallEdges).Tight := by
    intro i callees hi
    exact absurd (Std.ExtTreeMap.getElem?_empty.symm.trans hi) nofun
  unfold newTargets
  generalize (∅ : CallEdges) = found at hempty ⊢
  induction s.sites.toList generalizing found with
  | nil => exact hempty
  | cons entry entries ih => exact ih _ (hempty.foldl_insert _ _)

/-- **The answer of the built-in source can be connected.** -/
theorem resolve_newTargets (hr : s.Registered) : ∃ pairs, s.resolve s.newTargets = .ok pairs := by
  have hsite : ∀ entry ∈ s.newTargets.toList,
      ∃ pairs, s.resolveSite entry.1 entry.2 = .ok pairs := by
    rintro ⟨i, callees⟩ hentry
    have hget := mem_callEdges_toList hentry
    have hshown : ∀ f ∈ callees, s.Shows i f := fun f hf =>
      (mem_newTargets.mp (hget ▸ hf)).1
    obtain ⟨-, g, hg⟩ :=
      s.tight_newTargets i callees (Std.ExtTreeMap.mem_toList_iff_getElem?_eq_some.mp hentry)
    obtain ⟨site, _, _, hsite, -⟩ := hshown g hg
    obtain ⟨decls, hdecls⟩ : ∃ decls, callees.toList.mapM s.resolveCallee = .ok decls := by
      refine mapM_eq_ok_of_forall fun f hf => ?_
      obtain ⟨_, _, callee, -, -, hcallee, rfl⟩ := hshown f hf
      exact ⟨callee, resolveCallee_eq_ok.mpr (hr.functions.get?_of_forObject? hcallee)⟩
    unfold resolveSite
    rw [hsite, hdecls]
    exact ⟨_, rfl⟩
  obtain ⟨lists, hlists⟩ := mapM_eq_ok_of_forall hsite
  unfold resolve
  rw [hlists]
  exact ⟨_, rfl⟩

/-! ## The call graph after a round -/

theorem hasEdge_connect {targets : CallEdges} {new : Bool} (hr : s.Registered)
    (h : s.connect targets = (t, .ok new)) :
    t.calls.hasEdge i f = true ↔
      (∃ site callee, s.sites[i]? = some site ∧ s.functions.get? f = some callee ∧
        f ∈ targets.get i) ∨ s.calls.hasEdge i f = true := by
  rcases connect_cases hr targets with ⟨e, -, heq⟩ | ⟨pairs, hresolve, heq⟩
  · rw [h] at heq
    cases heq
  · rw [h] at heq
    obtain ⟨rfl, -⟩ := Prod.mk.inj heq
    rw [hasEdge_closeRound]
    refine (hasEdge_connectPairs (r := { solver := s }) hr.calls
      (hr.sites_of_resolve hresolve)).trans (or_congr_left ⟨?_, ?_⟩)
    · rintro ⟨site, callee, hmem, rfl, rfl⟩
      exact ⟨site, callee, (mem_pairs_of_resolve hr hresolve).mp hmem⟩
    · rintro ⟨site, callee, hsite, hcallee, hmem⟩
      obtain rfl := hr.sites hsite
      obtain rfl := hr.functions f callee hcallee
      exact ⟨site, callee, (mem_pairs_of_resolve hr hresolve).mpr ⟨hsite, hcallee, hmem⟩, rfl, rfl⟩

/-- **The call graph after a round** holds what it held and what the sets show. -/
theorem hasEdge_connect_newTargets {new : Bool} (hr : s.Registered)
    (h : s.connect s.newTargets = (t, .ok new)) :
    t.calls.hasEdge i f = true ↔ s.Shows i f ∨ s.calls.hasEdge i f = true := by
  rw [hasEdge_connect hr h]
  constructor
  · rintro (⟨site, callee, -, -, hmem⟩ | hedge)
    · exact .inl (mem_newTargets.mp hmem).1
    · exact .inr hedge
  · rintro (hshown | hedge)
    · by_cases hedge : s.calls.hasEdge i f = true
      · exact .inr hedge
      · have hmem := mem_newTargets.mpr ⟨hshown, hedge⟩
        obtain ⟨site, object, callee, hsite, -, hcallee, rfl⟩ := hshown
        exact .inl ⟨site, callee, hsite, hr.functions.get?_of_forObject? hcallee, hmem⟩
    · exact .inr hedge

/-- After a round that connects nothing new, all that the sets show is connected. -/
theorem hasEdge_of_shows_connect (hr : s.Registered)
    (h : s.connect s.newTargets = (t, .ok false)) (hshown : t.Shows i f) :
    t.calls.hasEdge i f = true := by
  obtain ⟨heq, -⟩ := connect_eq_false hr h
  refine (hasEdge_connect_newTargets hr h).mpr (.inl ?_)
  rw [heq] at hshown
  exact hshown

end Solver

end PointsTo
