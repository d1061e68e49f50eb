import PointsTo.Proofs.Closure
import PointsTo.Proofs.Solver.Targets

/-!
# A round is connected as a whole or not at all

A round names sites, and callees at each of them. It is refused for a site that is not registered,
even one without callees, and for a callee of a registered site that is not declared; the error
names the first of these, sites being gone through in ascending order and each before its callees. A
round that is refused leaves the solver as it is. One that is accepted connects exactly its pairs,
merges no class, and tells whether one of the pairs is new.

## Main definitions

* `CallEdges.Valid`: the callees of every site ascend
* `Solver.Knows`: what a round names at a site is registered
* `Solver.FirstUnknown`: the error for the first name that is not
* `Solver.Atomic`: what a round answers and what it leaves

## Main results

* `mapM_eq_error_iff`: a list in ascending order fails at its least failing element
* `resolve_eq_error_iff`: a round is refused for its first unknown name
* `atomic_of_reachable`: what a round answers and leaves, in every reachable state
-/

namespace PointsTo

/-! ## Lists in ascending order -/

section MapM

variable {α β ε : Type} {f : α → Except ε β} {x : α} {xs : List α} {e : ε}

theorem map_eq_error_iff {r : Except ε α} {g : α → β} : r.map g = .error e ↔ r = .error e := by
  cases r <;> simp [Except.map]

theorem mapM_cons_of_error (h : f x = .error e) : (x :: xs).mapM f = .error e := by
  rw [List.mapM_cons, h]
  rfl

theorem mapM_cons_eq_error_of_ok {y : β} (h : f x = .ok y) :
    (x :: xs).mapM f = .error e ↔ xs.mapM f = .error e := by
  rw [List.mapM_cons, h]
  cases xs.mapM f with
  | error e' => exact Iff.rfl
  | ok ys => exact iff_of_false (fun h => by cases h) (fun h => by cases h)

/-- **A list in ascending order fails at its least failing element.** -/
theorem mapM_eq_error_iff {key : α → Nat} (hsorted : xs.Pairwise fun x y => key x < key y) :
    xs.mapM f = .error e ↔
      ∃ x ∈ xs, f x = .error e ∧ ∀ y ∈ xs, key y < key x → ∃ z, f y = .ok z := by
  induction xs with
  | nil => exact iff_of_false (fun h => by cases h) (by simp)
  | cons x xs ih =>
    obtain ⟨hleast, hrest⟩ := List.pairwise_cons.mp hsorted
    cases hx : f x with
    | error e' =>
      rw [mapM_cons_of_error hx]
      constructor
      · rintro ⟨⟩
        refine ⟨x, List.mem_cons_self, hx, fun y hy hlt => ?_⟩
        rcases List.mem_cons.mp hy with rfl | hy
        · exact absurd hlt (Nat.lt_irrefl _)
        · exact absurd hlt (Nat.lt_asymm (hleast y hy))
      · rintro ⟨y, hy, hfail, hbefore⟩
        rcases List.mem_cons.mp hy with rfl | hy
        · cases hx.symm.trans hfail
          rfl
        · obtain ⟨z, hz⟩ := hbefore x List.mem_cons_self (hleast y hy)
          cases hx.symm.trans hz
    | ok z =>
      rw [mapM_cons_eq_error_of_ok hx, ih hrest]
      constructor
      · rintro ⟨y, hy, hfail, hbefore⟩
        refine ⟨y, List.mem_cons_of_mem x hy, hfail, fun w hw hlt => ?_⟩
        rcases List.mem_cons.mp hw with rfl | hw
        · exact ⟨z, hx⟩
        · exact hbefore w hw hlt
      · rintro ⟨y, hy, hfail, hbefore⟩
        rcases List.mem_cons.mp hy with rfl | hy
        · cases hx.symm.trans hfail
        · exact ⟨y, hy, hfail, fun w hw => hbefore w (List.mem_cons_of_mem x hw)⟩

end MapM

/-! ## Rounds with ascending callees -/

namespace CallEdges

/-- The callees of every site ascend. -/
def Valid (e : CallEdges) : Prop := ∀ i, (e.get i).Ascending

theorem Valid.insertAll {e : CallEdges} (h : e.Valid) (i : SiteId) {callees : IdSet}
    (hcallees : callees.Ascending) : (e.insertAll i callees).Valid := by
  intro j
  rw [CallEdges.insertAll, get, Std.ExtTreeMap.getD_insert]
  split
  · exact IdSet.ascending_union (h i) hcallees
  · exact h j

/-- The edges of a list have ascending callees. -/
theorem valid_ofList (entries : List (SiteId × List FunctionId)) : (ofList entries).Valid := by
  suffices ∀ e : CallEdges, e.Valid →
      (entries.foldl (fun e entry => e.insertAll entry.1 (.ofList entry.2)) e).Valid from
    this empty fun i => by simp [get, empty]
  induction entries with
  | nil => exact fun _ h => h
  | cons entry entries ih =>
    exact fun e h => ih _ (h.insertAll entry.1 (IdSet.ascending_ofList entry.2))

theorem mem_toList_iff {e : CallEdges} {i : SiteId} {callees : IdSet} :
    (i, callees) ∈ e.toList ↔ i ∈ e.targets ∧ e.get i = callees := by
  rw [toList, Std.ExtTreeMap.mem_toList_iff_getElem?_eq_some, get_eq,
    Std.ExtTreeMap.mem_iff_isSome_getElem?]
  cases e.targets[i]? with
  | none => simp
  | some listed => simp

theorem pairwise_toList (e : CallEdges) : e.toList.Pairwise fun x y => x.1 < y.1 :=
  Std.ExtTreeMap.ordered_keys_toList.imp fun h => Nat.compare_eq_lt.mp h

theorem mem_targets_of_mem_get {e : CallEdges} {i : SiteId} {f : FunctionId} (h : f ∈ e.get i) :
    i ∈ e.targets := by
  obtain ⟨callees, hentry, -⟩ := Solver.exists_mem_callEdges_toList h
  exact (mem_toList_iff.mp hentry).1

end CallEdges

namespace Solver

variable {s t : Solver} {targets : CallEdges} {callees : IdSet} {i : SiteId} {f : FunctionId}
  {e : AnalysisError}

/-! ## Unknown names -/

/-- **What a round names at a site is registered**: the site itself, if it is listed, and its
callees. -/
def Knows (s : Solver) (targets : CallEdges) (i : SiteId) : Prop :=
  i ∈ targets.targets → (∃ site, s.sites[i]? = some site) ∧
    ∀ f ∈ targets.get i, ∃ callee, s.functions.get? f = some callee

/-- **The error for the first name of a round that is not registered.** Names ascend by site, and a
site comes before its callees. -/
inductive FirstUnknown (s : Solver) (targets : CallEdges) : AnalysisError → Prop
  | site {i : SiteId} : i ∈ targets.targets → s.sites[i]? = none →
      (∀ j < i, s.Knows targets j) → FirstUnknown s targets (.unknownCallSite i)
  | callee {i : SiteId} {site : CallSite} {f : FunctionId} : s.sites[i]? = some site →
      f ∈ targets.get i → s.functions.get? f = none →
      (∀ g ∈ targets.get i, g < f → ∃ callee, s.functions.get? g = some callee) →
      (∀ j < i, s.Knows targets j) → FirstUnknown s targets (.unknownFunction f)

theorem resolveCallee_eq_error :
    s.resolveCallee f = .error e ↔ s.functions.get? f = none ∧ e = .unknownFunction f := by
  unfold resolveCallee
  cases s.functions.get? f with
  | none => simp [eq_comm]
  | some d => simp

theorem exists_resolveSite_eq_ok_iff :
    (∃ pairs, s.resolveSite i callees = .ok pairs) ↔ (∃ site, s.sites[i]? = some site) ∧
      ∀ f ∈ callees, ∃ callee, s.functions.get? f = some callee := by
  constructor
  · rintro ⟨pairs, h⟩
    obtain ⟨site, decls, hsite, hdecls, -⟩ := resolveSite_eq_ok h
    refine ⟨⟨site, hsite⟩, fun f hf => ?_⟩
    obtain ⟨callee, -, hcallee⟩ := exists_mem_of_mapM_eq_ok hdecls hf
    exact ⟨callee, resolveCallee_eq_ok.mp hcallee⟩
  · rintro ⟨⟨site, hsite⟩, hcallees⟩
    have hdeclared : ∀ f ∈ callees.toList, ∃ callee, s.resolveCallee f = .ok callee := fun f hf =>
      (hcallees f hf).imp fun callee hcallee => resolveCallee_eq_ok.mpr hcallee
    obtain ⟨decls, hdecls⟩ := mapM_eq_ok_of_forall hdeclared
    exact ⟨decls.map (site, ·), by rw [resolveSite, hsite, hdecls]; rfl⟩

/-- A site is refused for itself, or for the first of its callees that is not declared. -/
theorem resolveSite_eq_error_iff (hcallees : callees.Ascending) :
    s.resolveSite i callees = .error e ↔
      (s.sites[i]? = none ∧ e = .unknownCallSite i) ∨
        ∃ site f, s.sites[i]? = some site ∧ f ∈ callees ∧ s.functions.get? f = none ∧
          e = .unknownFunction f ∧
          ∀ g ∈ callees, g < f → ∃ callee, s.functions.get? g = some callee := by
  unfold resolveSite
  cases hsite : s.sites[i]? with
  | none => simp [eq_comm]
  | some site =>
    have hsorted : callees.toList.Pairwise fun f g => id f < id g := hcallees
    have hmapM := mapM_eq_error_iff (f := s.resolveCallee) (e := e) hsorted
    refine map_eq_error_iff.trans (hmapM.trans ?_)
    simp only [resolveCallee_eq_error, resolveCallee_eq_ok, id]
    constructor
    · rintro ⟨f, hf, ⟨hnone, rfl⟩, hbefore⟩
      exact .inr ⟨site, f, rfl, hf, hnone, rfl, hbefore⟩
    · rintro (⟨hnone, -⟩ | ⟨-, f, -, hf, hnone, rfl, hbefore⟩)
      · cases hnone
      · exact ⟨f, hf, ⟨hnone, rfl⟩, hbefore⟩

/-- The entries of some sites are resolved when these sites are known. -/
theorem resolveSite_ok_iff_knows {P : SiteId → Prop} :
    (∀ entry ∈ targets.toList, P entry.1 → ∃ pairs, s.resolveSite entry.1 entry.2 = .ok pairs) ↔
      ∀ i, P i → s.Knows targets i := by
  constructor
  · intro h i hi hlisted
    have hentry : (i, targets.get i) ∈ targets.toList :=
      CallEdges.mem_toList_iff.mpr ⟨hlisted, rfl⟩
    exact exists_resolveSite_eq_ok_iff.mp (h _ hentry hi)
  · rintro h ⟨i, callees⟩ hentry hi
    obtain ⟨hlisted, rfl⟩ := CallEdges.mem_toList_iff.mp hentry
    exact exists_resolveSite_eq_ok_iff.mpr (h i hi hlisted)

/-- A round is accepted when all its names are known. -/
theorem exists_resolve_eq_ok_iff :
    (∃ pairs, s.resolve targets = .ok pairs) ↔ ∀ i, s.Knows targets i := by
  have hall : (∀ entry ∈ targets.toList, True → ∃ pairs, s.resolveSite entry.1 entry.2 = .ok pairs)
      ↔ ∀ i, True → s.Knows targets i := resolveSite_ok_iff_knows (P := fun _ => True)
  simp only [forall_const] at hall
  rw [← hall]
  constructor
  · rintro ⟨pairs, h⟩ entry hentry
    obtain ⟨lists, hlists, -⟩ := resolve_eq_ok h
    obtain ⟨list, -, hlist⟩ := exists_mem_of_mapM_eq_ok hlists hentry
    exact ⟨list, hlist⟩
  · intro h
    obtain ⟨lists, hlists⟩ :=
      mapM_eq_ok_of_forall (f := fun entry : SiteId × IdSet => s.resolveSite entry.1 entry.2) h
    exact ⟨lists.flatten, by rw [resolve, hlists]; rfl⟩

/-- **A round is refused for its first unknown name.** -/
theorem resolve_eq_error_iff (hv : targets.Valid) :
    s.resolve targets = .error e ↔ s.FirstUnknown targets e := by
  have hmapM := mapM_eq_error_iff (e := e) targets.pairwise_toList
    (f := fun entry => s.resolveSite entry.1 entry.2)
  refine map_eq_error_iff.trans (hmapM.trans ⟨?_, ?_⟩)
  · rintro ⟨⟨i, callees⟩, hentry, hfail, hknown⟩
    obtain ⟨hlisted, rfl⟩ := CallEdges.mem_toList_iff.mp hentry
    have hlesser := (resolveSite_ok_iff_knows (P := (· < i))).mp hknown
    rcases (resolveSite_eq_error_iff (hv i)).mp hfail with
      ⟨hnone, rfl⟩ | ⟨site, f, hsite, hf, hnone, rfl, hfirst⟩
    · exact .site hlisted hnone hlesser
    · exact .callee hsite hf hnone hfirst hlesser
  · intro hfirst
    cases hfirst with
    | @site i hlisted hnone hlesser =>
      refine ⟨(i, targets.get i), CallEdges.mem_toList_iff.mpr ⟨hlisted, rfl⟩, ?_,
        resolveSite_ok_iff_knows.mpr hlesser⟩
      exact (resolveSite_eq_error_iff (hv i)).mpr (.inl ⟨hnone, rfl⟩)
    | @callee i site f hsite hf hnone hfirst hlesser =>
      have hlisted := CallEdges.mem_targets_of_mem_get hf
      refine ⟨(i, targets.get i), CallEdges.mem_toList_iff.mpr ⟨hlisted, rfl⟩, ?_,
        resolveSite_ok_iff_knows.mpr hlesser⟩
      exact (resolveSite_eq_error_iff (hv i)).mpr (.inr ⟨site, f, hsite, hf, hnone, rfl, hfirst⟩)

/-! ## Whole rounds -/

/-- **What a round answers and what it leaves**, whether it is refused or accepted. -/
structure Atomic (s : Solver) (targets : CallEdges) : Prop where
  refused : ∀ {e}, (s.connect targets).2 = .error e ↔ s.FirstUnknown targets e
  accepted : (∃ new, (s.connect targets).2 = .ok new) ↔ ∀ i, s.Knows targets i
  /-- A round that is refused changes nothing. -/
  unchanged : ∀ {e}, (s.connect targets).2 = .error e → (s.connect targets).1 = s
  /-- The answer tells whether a pair of the round is new. -/
  answer : ∀ {new}, (s.connect targets).2 = .ok new →
    (new = true ↔ ∃ i f, f ∈ targets.get i ∧ ¬ s.calls.hasEdge i f = true)
  hasEdge : ∀ {new}, (s.connect targets).2 = .ok new → ∀ i f,
    ((s.connect targets).1.calls.hasEdge i f = true ↔
      s.calls.hasEdge i f = true ∨ f ∈ targets.get i)
  callees : ∀ {new}, (s.connect targets).2 = .ok new → ∀ i,
    (s.connect targets).1.calls.calleesOf i = s.calls.calleesOf i ∪ targets.get i
  classes : ∀ {new}, (s.connect targets).2 = .ok new → ∀ n,
    (s.connect targets).1.representative n = s.representative n

theorem connect_snd_eq_error (hr : s.Registered) (h : (s.connect targets).2 = .error e) :
    s.resolve targets = .error e ∧ (s.connect targets).1 = s := by
  rcases connect_cases hr targets with ⟨e', hresolve, heq⟩ | ⟨pairs, -, heq⟩
  · rw [heq] at h ⊢
    cases h
    exact ⟨hresolve, rfl⟩
  · rw [heq] at h
    cases h

theorem connect_snd_eq_ok (hr : s.Registered) {new : Bool} (h : (s.connect targets).2 = .ok new) :
    s.connect targets = ((s.connect targets).1, .ok new) ∧
      ∃ pairs, s.resolve targets = .ok pairs := by
  rcases connect_cases hr targets with ⟨e, -, heq⟩ | ⟨pairs, hresolve, -⟩
  · rw [heq] at h
    cases h
  · exact ⟨by rw [← h], pairs, hresolve⟩

theorem connect_of_resolve_error (h : s.resolve targets = .error e) :
    s.connect targets = (s, .error e) := by
  rw [connect, h]

/-- The edges after a round that is accepted. -/
theorem hasEdge_connect_iff (hr : s.Registered) {new : Bool}
    (h : (s.connect targets).2 = .ok new) (i : SiteId) (f : FunctionId) :
    (s.connect targets).1.calls.hasEdge i f = true ↔
      s.calls.hasEdge i f = true ∨ f ∈ targets.get i := by
  obtain ⟨heq, pairs, hresolve⟩ := connect_snd_eq_ok hr h
  rw [hasEdge_connect hr heq, or_comm]
  refine or_congr_right ⟨?_, fun hf => ?_⟩
  · rintro ⟨site, callee, -, -, hf⟩
    exact hf
  · obtain ⟨site, callee, hsite, hcallee⟩ := exists_of_resolve hresolve hf
    exact ⟨site, callee, hsite, hcallee, hf⟩

/-- A round answers that it found something new exactly if one of its pairs was not connected. -/
theorem connect_answer_iff (hr : s.Registered) {new : Bool}
    (h : (s.connect targets).2 = .ok new) :
    new = true ↔ ∃ i f, f ∈ targets.get i ∧ ¬ s.calls.hasEdge i f = true := by
  obtain ⟨heq, -⟩ := connect_snd_eq_ok hr h
  cases new with
  | true =>
    refine iff_of_true rfl ?_
    obtain ⟨⟨i, f⟩, hleft, hedge⟩ := gains_of_connect hr heq
    have hnew := (Finset.mem_filter.mp hleft).2
    exact ⟨i, f, ((hasEdge_connect_iff hr h i f).mp hedge).resolve_left hnew, hnew⟩
  | false =>
    refine iff_of_false Bool.false_ne_true ?_
    rintro ⟨i, f, hf, hnew⟩
    obtain ⟨-, pairs, hresolve, hall⟩ := connect_eq_false hr heq
    obtain ⟨site, callee, hsite, hcallee⟩ := exists_of_resolve hresolve hf
    obtain rfl := hr.sites hsite
    obtain rfl := hr.functions f callee hcallee
    exact hnew (hall ((mem_pairs_of_resolve hr hresolve).mpr ⟨hsite, hcallee, hf⟩))

/-- **A round of a coherent solver is atomic.** -/
theorem Coherent.atomic (hs : s.Coherent) (hv : targets.Valid) : s.Atomic targets := by
  have hr := hs.registered
  have hafter := hs.steps (steps_connect (Licence.le_refl .analysis) hs targets)
  refine ⟨⟨fun h => ?_, fun h => ?_⟩, ⟨?_, fun h => ?_⟩, fun h => (connect_snd_eq_error hr h).2,
    connect_answer_iff hr, hasEdge_connect_iff hr, fun h i => ?_, fun _ n => ?_⟩
  · exact (resolve_eq_error_iff hv).mp (connect_snd_eq_error hr h).1
  · rw [connect_of_resolve_error ((resolve_eq_error_iff hv).mpr h)]
  · rintro ⟨new, h⟩
    exact exists_resolve_eq_ok_iff.mp (connect_snd_eq_ok hr h).2
  · obtain ⟨pairs, hresolve⟩ := exists_resolve_eq_ok_iff.mpr h
    rcases connect_cases hr targets with ⟨e, herror, -⟩ | ⟨pairs', -, heq⟩
    · cases hresolve.symm.trans herror
    · exact ⟨_, by rw [heq]⟩
  · refine IdSet.eq_of_mem_iff (hafter.registered.calls i)
      (IdSet.ascending_union (hr.calls i) (hv i)) fun f => ?_
    rw [← hafter.registered.calls.hasEdge_iff, hasEdge_connect_iff hr h, IdSet.mem_union,
      hr.calls.hasEdge_iff]
  · rw [representative, (connect_still hr targets).1, representative]

end Solver

open Solver

/-- **A round is connected as a whole or not at all**, in every state that operations lead to. -/
theorem atomic_of_reachable {p : Problem} {s : Solver} (hp : p.Made) (h : Reachable .any p s)
    {targets : CallEdges} (hv : targets.Valid) : s.Atomic targets :=
  (h.coherent hp).atomic hv

/-- A round with a callee that could be connected, one that is not declared, and after both a site
that is not registered; and a round without the last two. -/
theorem atomic_sampleHistory :
    (sampleHistory.connect (.ofList [(0, [9, 3]), (7, [])])).2 = .error (.unknownFunction 9) ∧
      (sampleHistory.connect (.ofList [(0, [9, 3]), (7, [])])).1 = sampleHistory ∧
      (sampleHistory.connect (.ofList [(0, [3])])).2 = .ok true ∧
      (sampleHistory.connect (.ofList [(0, [3])])).1.calls.hasEdge 0 3 = true := by
  have hrefused : (sampleHistory.connect (.ofList [(0, [9, 3]), (7, [])])).2 =
      .error (.unknownFunction 9) := by decide +kernel
  have haccepted : (sampleHistory.connect (.ofList [(0, [3])])).2 = .ok true := by decide +kernel
  have hatomic : ∀ entries, sampleHistory.Atomic (.ofList entries) := fun entries =>
    atomic_of_reachable sampleProblem_made reachable_sampleHistory (CallEdges.valid_ofList entries)
  have hedge : 3 ∈ (CallEdges.ofList [(0, [3])]).get 0 :=
    (IdSet.contains_iff_mem (CallEdges.valid_ofList _ 0)).mp (by decide +kernel)
  exact ⟨hrefused, (hatomic _).unchanged hrefused, haccepted,
    ((hatomic _).hasEdge haccepted 0 3).mpr (.inr hedge)⟩

end PointsTo
