import Mathlib.Data.Finset.Prod
import PointsTo.Proofs.Solver.Wiring
import PointsTo.Solver.Analyze

/-!
# A round of callees

A round resolves the names that it is given, connects the callees that are new, one after the other,
and closes: the sources of the copies that were added wait to be treated. In a registered state a
round fails only before it has changed anything. A round that connects no new callee changes nothing
but the states of the sites, and there are only so many callees to connect.

## Main definitions

* `Solver.Registered`: sites and functions stand under their names, and their nodes are known
* `Solver.Poised`: every node is settled, or its class waits
* `Solver.unconnected`: the number of callees that are left to connect
* `Solver.Gains`: one of them is connected

## Main results

* `registered_ofProblem`: the state before the analysis is registered
* `mem_pairs_of_resolve`: the names that a round resolves
* `resolve_eq_error`: what a round is refused for
* `connectPair_eq`: connecting one callee
* `connect_cases`: what a round does
* `Noticed.connect`: nothing that a round does to a class goes unnoticed
* `unconnected_lt_of_connect`: a round with a new callee leaves fewer of them
-/

namespace PointsTo

/-! ## Lists of answers -/

section MapM

variable {α β ε : Type} {f : α → Except ε β} {xs : List α} {ys : List β}

theorem mapM_eq_ok_cons {x : α} (h : (x :: xs).mapM f = .ok ys) :
    ∃ y zs, f x = .ok y ∧ xs.mapM f = .ok zs ∧ ys = y :: zs := by
  rw [List.mapM_cons] at h
  cases hx : f x with
  | error e => rw [hx] at h; cases h
  | ok y =>
    rw [hx] at h
    cases hxs : xs.mapM f with
    | error e => rw [hxs] at h; cases h
    | ok zs =>
      rw [hxs] at h
      injection h with h
      exact ⟨y, zs, rfl, rfl, h.symm⟩

theorem exists_mem_of_mapM_eq_ok (h : xs.mapM f = .ok ys) {x : α} (hx : x ∈ xs) :
    ∃ y ∈ ys, f x = .ok y := by
  induction xs generalizing ys with
  | nil => cases hx
  | cons z xs ih =>
    obtain ⟨y, zs, hz, hzs, rfl⟩ := mapM_eq_ok_cons h
    rcases List.mem_cons.mp hx with rfl | hx
    · exact ⟨y, List.mem_cons_self, hz⟩
    · obtain ⟨w, hw, hxw⟩ := ih hzs hx
      exact ⟨w, List.mem_cons_of_mem y hw, hxw⟩

theorem mem_of_mapM_eq_ok (h : xs.mapM f = .ok ys) {y : β} (hy : y ∈ ys) :
    ∃ x ∈ xs, f x = .ok y := by
  induction xs generalizing ys with
  | nil =>
    injection h with h
    subst h
    cases hy
  | cons x xs ih =>
    obtain ⟨z, zs, hz, hzs, rfl⟩ := mapM_eq_ok_cons h
    rcases List.mem_cons.mp hy with rfl | hy
    · exact ⟨x, List.mem_cons_self, hz⟩
    · obtain ⟨w, hw, hwy⟩ := ih hzs hy
      exact ⟨w, List.mem_cons_of_mem x hw, hwy⟩

theorem exists_mem_of_mapM_eq_error {e : ε} (h : xs.mapM f = .error e) :
    ∃ x ∈ xs, f x = .error e := by
  induction xs with
  | nil => cases h
  | cons x xs ih =>
    rw [List.mapM_cons] at h
    cases hx : f x with
    | error e' =>
      rw [hx] at h
      injection h with h
      exact ⟨x, List.mem_cons_self, h ▸ hx⟩
    | ok y =>
      rw [hx] at h
      cases hxs : xs.mapM f with
      | error e' =>
        rw [hxs] at h
        injection h with h
        obtain ⟨z, hz, hze⟩ := ih (h ▸ hxs)
        exact ⟨z, List.mem_cons_of_mem x hz, hze⟩
      | ok ys => rw [hxs] at h; cases h

theorem mapM_eq_ok_of_forall (h : ∀ x ∈ xs, ∃ y, f x = .ok y) : ∃ ys, xs.mapM f = .ok ys := by
  induction xs with
  | nil => exact ⟨[], rfl⟩
  | cons x xs ih =>
    obtain ⟨y, hy⟩ := h x List.mem_cons_self
    obtain ⟨ys, hys⟩ := ih fun z hz => h z (List.mem_cons_of_mem x hz)
    exact ⟨y :: ys, by rw [List.mapM_cons, hy, hys]; rfl⟩

end MapM

namespace Solver

variable {s t : Solver} {r : Round} {targets : CallEdges} {pairs : List (CallSite × FunctionDecl)}
  {site : CallSite} {callee : FunctionDecl} {i : SiteId} {f : FunctionId} {n : NodeId}

/-! ## Registered states -/

/-- Sites and functions stand under their names, the callees of every site ascend, and every node
that a site or a function names is a node of the graph. -/
structure Registered (s : Solver) : Prop where
  sites : ∀ {i : SiteId} {site : CallSite}, s.sites[i]? = some site → site.id = i
  functions : s.functions.Valid
  calls : s.calls.Valid
  nodes : ∀ n ∈ namedNodes s.sites s.functions, s.graph.hasNode n = true

theorem id_of_getElem?_sitesById {sites : List CallSite} (h : (sitesById sites)[i]? = some site) :
    site.id = i := by
  suffices ∀ table : Std.ExtTreeMap SiteId CallSite,
      (∀ {i : SiteId} {site : CallSite}, table[i]? = some site → site.id = i) →
      ∀ {i : SiteId} {site : CallSite},
        (sites.foldl (fun table site => table.insert site.id site) table)[i]? = some site →
          site.id = i from this ∅ (fun h => by simp at h) h
  -- On the list, for any table that lists sites under their names.
  clear h
  induction sites with
  | nil => exact fun table ht => ht
  | cons c sites ih =>
    refine fun table ht => ih _ fun {i site} h => ?_
    rw [Std.ExtTreeMap.getElem?_insert] at h
    split at h
    · rename_i hcmp
      injection h with h
      rw [← h]
      exact Std.LawfulEqCmp.compare_eq_iff_eq.mp hcmp
    · exact ht h

/-- What is made of a problem that was accepted. -/
theorem ofProblem_eq_ok {p : Problem} (h : ofProblem p = .ok s) :
    p.settings.validate = .ok () ∧
      (∀ n ∈ namedNodes (sitesById p.sites) p.functions, p.graph.hasNode n = true) ∧
      s = { settings := p.settings
            graph := p.graph
            outsideAddresses := p.outsideAddresses
            store := p.store
            worklist := .empty p.settings.worklistOrder
            functions := p.functions
            sites := sitesById p.sites } := by
  unfold ofProblem at h
  split at h
  · cases h
  · rename_i hsettings
    dsimp only at h
    split at h
    · cases h
    · rename_i hmissing
      injection h with h
      exact ⟨hsettings, ConstraintGraph.missing?_eq_none.mp hmissing, h.symm⟩

/-- **The state before the analysis is registered.** -/
theorem registered_ofProblem {p : Problem} (hf : p.functions.Valid) (h : ofProblem p = .ok s) :
    s.Registered := by
  obtain ⟨-, hnodes, rfl⟩ := ofProblem_eq_ok h
  exact ⟨id_of_getElem?_sitesById, hf, CallGraph.valid_empty, hnodes⟩

/-- Before the analysis no site has memory. -/
theorem allocation?_ofProblem {p : Problem} (h : ofProblem p = .ok s) : s.allocation? i = none := by
  obtain ⟨-, -, rfl⟩ := ofProblem_eq_ok h
  exact Std.ExtTreeMap.getElem?_empty

/-- Before the analysis no callee is connected. -/
theorem not_hasEdge_ofProblem {p : Problem} (h : ofProblem p = .ok s) :
    ¬ s.calls.hasEdge i f = true := by
  obtain ⟨-, -, rfl⟩ := ofProblem_eq_ok h
  intro hedge
  have hmem := CallGraph.valid_empty.hasEdge_iff.mp hedge
  rw [CallGraph.calleesOf_empty] at hmem
  exact List.not_mem_nil hmem

theorem Registered.mono (h : s.Registered) (hsites : t.sites = s.sites)
    (hfunctions : t.functions = s.functions) (hcalls : t.calls.Valid)
    (hcount : s.graph.nodeCount ≤ t.graph.nodeCount) : t.Registered where
  sites := by rw [hsites]; exact h.sites
  functions := by rw [hfunctions]; exact h.functions
  calls := hcalls
  nodes := by
    rw [hsites, hfunctions]
    intro n hn
    have hlt := ConstraintGraph.hasNode_iff.mp (h.nodes n hn)
    exact ConstraintGraph.hasNode_iff.mpr (Nat.lt_of_lt_of_le hlt hcount)

theorem Registered.hasNode_site (h : s.Registered) (hsite : s.sites[i]? = some site)
    (hn : n ∈ site.nodes) : s.graph.hasNode n = true :=
  h.nodes n (List.mem_append_left _
    (List.mem_flatMap.mpr ⟨site, mem_values_of_getElem? hsite, hn⟩))

theorem Registered.hasNode_function (h : s.Registered) (hcallee : s.functions.get? f = some callee)
    (hn : n ∈ callee.nodes) : s.graph.hasNode n = true :=
  h.nodes n (List.mem_append_right _
    (List.mem_flatMap.mpr ⟨callee, mem_values_of_getElem? hcallee, hn⟩))

/-! ## Resolving names -/

theorem resolve_eq_ok (h : s.resolve targets = .ok pairs) :
    ∃ lists, targets.toList.mapM (fun entry => s.resolveSite entry.1 entry.2) = .ok lists ∧
      pairs = lists.flatten := by
  unfold resolve at h
  cases hlists : targets.toList.mapM fun entry => s.resolveSite entry.1 entry.2 with
  | error e => rw [hlists] at h; cases h
  | ok lists =>
    rw [hlists] at h
    injection h with h
    exact ⟨lists, rfl, h.symm⟩

theorem resolveSite_eq_ok {callees : IdSet} (h : s.resolveSite i callees = .ok pairs) :
    ∃ site decls, s.sites[i]? = some site ∧ callees.toList.mapM s.resolveCallee = .ok decls ∧
      pairs = decls.map (site, ·) := by
  unfold resolveSite at h
  cases hsite : s.sites[i]? with
  | none => rw [hsite] at h; cases h
  | some site =>
    rw [hsite] at h
    cases hdecls : callees.toList.mapM s.resolveCallee with
    | error e => rw [hdecls] at h; cases h
    | ok decls =>
      rw [hdecls] at h
      injection h with h
      exact ⟨site, decls, rfl, rfl, h.symm⟩

theorem resolveCallee_eq_ok :
    s.resolveCallee f = .ok callee ↔ s.functions.get? f = some callee := by
  unfold resolveCallee
  cases s.functions.get? f with
  | none => simp
  | some d => simp

/-- **What a round is refused for**: a site that is not registered, or a function that is not
declared. -/
theorem resolve_eq_error {e : AnalysisError} (h : s.resolve targets = .error e) :
    ∃ entry ∈ targets.toList,
      (s.sites[entry.1]? = none ∧ e = .unknownCallSite entry.1) ∨
        ∃ f ∈ entry.2, s.functions.get? f = none ∧ e = .unknownFunction f := by
  unfold resolve at h
  cases hlists : targets.toList.mapM fun entry => s.resolveSite entry.1 entry.2 with
  | ok lists => rw [hlists] at h; cases h
  | error e' =>
    rw [hlists] at h
    obtain rfl : e' = e := by injection h
    obtain ⟨entry, hentry, hsite⟩ := exists_mem_of_mapM_eq_error hlists
    refine ⟨entry, hentry, ?_⟩
    unfold resolveSite at hsite
    cases hregistered : s.sites[entry.1]? with
    | none =>
      rw [hregistered] at hsite
      injection hsite with hsite
      exact .inl ⟨rfl, hsite.symm⟩
    | some site =>
      rw [hregistered] at hsite
      cases hdecls : entry.2.toList.mapM s.resolveCallee with
      | ok decls => rw [hdecls] at hsite; cases hsite
      | error e'' =>
        rw [hdecls] at hsite
        obtain rfl : e'' = e' := by injection hsite
        obtain ⟨f, hf, hcallee⟩ := exists_mem_of_mapM_eq_error hdecls
        unfold resolveCallee at hcallee
        split at hcallee
        · rename_i hnone
          injection hcallee with hcallee
          exact .inr ⟨f, hf, hnone, hcallee.symm⟩
        · cases hcallee

theorem mem_callEdges_toList {callees : IdSet} (h : (i, callees) ∈ targets.toList) :
    targets.get i = callees := by
  have hget := Std.ExtTreeMap.mem_toList_iff_getElem?_eq_some.mp h
  rw [CallEdges.get, Std.ExtTreeMap.getD_eq_getD_getElem?, hget, Option.getD_some]

theorem exists_mem_callEdges_toList (h : f ∈ targets.get i) :
    ∃ callees, (i, callees) ∈ targets.toList ∧ f ∈ callees := by
  rw [CallEdges.get, Std.ExtTreeMap.getD_eq_getD_getElem?] at h
  cases hget : targets.targets[i]? with
  | none =>
    rw [hget, Option.getD_none] at h
    exact absurd h (IdSet.not_mem_empty f)
  | some callees =>
    rw [hget, Option.getD_some] at h
    exact ⟨callees, Std.ExtTreeMap.mem_toList_iff_getElem?_eq_some.mpr hget, h⟩

/-- **The pairs that a round connects** are the targets, site and function being registered. -/
theorem mem_pairs_of_resolve (hr : s.Registered) (h : s.resolve targets = .ok pairs) :
    (site, callee) ∈ pairs ↔ s.sites[site.id]? = some site ∧
      s.functions.get? callee.id = some callee ∧ callee.id ∈ targets.get site.id := by
  obtain ⟨lists, hlists, rfl⟩ := resolve_eq_ok h
  constructor
  · intro hmem
    obtain ⟨list, hlist, hpair⟩ := List.mem_flatten.mp hmem
    obtain ⟨⟨i, callees⟩, hentry, hresolved⟩ := mem_of_mapM_eq_ok hlists hlist
    obtain ⟨site', decls, hsite, hdecls, rfl⟩ := resolveSite_eq_ok hresolved
    obtain ⟨d, hd, heq⟩ := List.mem_map.mp hpair
    obtain ⟨rfl, rfl⟩ := Prod.mk.inj heq
    obtain ⟨f, hf, hfd⟩ := mem_of_mapM_eq_ok hdecls hd
    have hcallee := resolveCallee_eq_ok.mp hfd
    obtain rfl := hr.sites hsite
    obtain rfl := hr.functions _ _ hcallee
    rw [mem_callEdges_toList hentry]
    exact ⟨hsite, hcallee, hf⟩
  · rintro ⟨hsite, hcallee, hf⟩
    obtain ⟨callees, hentry, hf⟩ := exists_mem_callEdges_toList hf
    obtain ⟨list, hlist, hresolved⟩ := exists_mem_of_mapM_eq_ok hlists hentry
    obtain ⟨site', decls, hsite', hdecls, rfl⟩ := resolveSite_eq_ok hresolved
    obtain rfl : site = site' := Option.some.inj (hsite.symm.trans hsite')
    obtain ⟨d, hd, hfd⟩ := exists_mem_of_mapM_eq_ok hdecls hf
    obtain rfl : callee = d := Option.some.inj (hcallee.symm.trans (resolveCallee_eq_ok.mp hfd))
    exact List.mem_flatten.mpr ⟨_, hlist, List.mem_map.mpr ⟨callee, hd, rfl⟩⟩

/-- What is named and resolved is registered. -/
theorem exists_of_resolve (h : s.resolve targets = .ok pairs) (hf : f ∈ targets.get i) :
    ∃ site callee, s.sites[i]? = some site ∧ s.functions.get? f = some callee := by
  obtain ⟨lists, hlists, -⟩ := resolve_eq_ok h
  obtain ⟨callees, hentry, hf⟩ := exists_mem_callEdges_toList hf
  obtain ⟨list, -, hresolved⟩ := exists_mem_of_mapM_eq_ok hlists hentry
  obtain ⟨site, decls, hsite, hdecls, -⟩ := resolveSite_eq_ok hresolved
  obtain ⟨callee, -, hcallee⟩ := exists_mem_of_mapM_eq_ok hdecls hf
  exact ⟨site, callee, hsite, resolveCallee_eq_ok.mp hcallee⟩

/-! ## Connecting one callee -/

/-- A callee joins the call graph. -/
def addCallee (s : Solver) (site : CallSite) (callee : FunctionDecl) : Solver :=
  { s with
    calls := (s.calls.insert site.id callee.id).1
    counters.indirectCallEdges := s.counters.indirectCallEdges + 1 }.report
      (.targetConnected site.id callee.name site.isFork)

/-- Connecting a callee of a registered site does not fail: memory first, then parameters. -/
theorem connectCall_eq (hsite : s.sites[site.id]? = some site) (added : CopySet)
    (callee : FunctionDecl) :
    s.connectCall added site callee =
      (if callee.isHeapAllocator && s.settings.modelIndirectHeapAllocators then
        (s.allocate added site.id).1.1.connectParameters (s.allocate added site.id).1.2 site callee
      else s.connectParameters added site callee, .ok ()) := by
  unfold connectCall
  split
  · have hok : ∃ reached made, s.allocate added site.id = (reached, .ok made) := by
      unfold allocate
      rw [hsite]
      exact ⟨_, _, rfl⟩
    obtain ⟨reached, made, heq⟩ := hok
    rw [heq]
  · rfl

/-- The round after one more callee. -/
def Round.extend (r : Round) (site : CallSite) (callee : FunctionDecl) : Round where
  solver := ((r.solver.addCallee site callee).connectCallee r.added site callee).1
  added := ((r.solver.addCallee site callee).connectCallee r.added site callee).2
  connected := r.connected.insert site.id

/-- **Connecting one callee**: nothing happens when it is connected, and otherwise it joins the call
graph and its flow is added. The call graph itself tells whether the callee was new. -/
theorem connectPair_eq (hsite : r.solver.sites[site.id]? = some site) :
    connectPair r site callee =
      if r.solver.calls.hasEdge site.id callee.id = true then (r, .ok ())
      else (r.extend site callee, .ok ()) := by
  unfold connectPair
  split
  · rename_i calls hinsert
    have hedge := congrArg Prod.snd hinsert
    rw [CallGraph.insert_snd, Bool.not_eq_false'] at hedge
    rw [if_pos hedge]
  · rename_i calls hinsert
    have hedge := congrArg Prod.snd hinsert
    rw [CallGraph.insert_snd, Bool.not_eq_true'] at hedge
    have hcalls : (r.solver.calls.insert site.id callee.id).1 = calls := by rw [hinsert]
    rw [if_neg (by simp [hedge])]
    unfold Round.extend connectCallee addCallee
    rw [hcalls]
    split
    · rfl
    · have heq := connectCall_eq (s := { r.solver with
        calls, counters.indirectCallEdges := r.solver.counters.indirectCallEdges + 1 }.report
        (.targetConnected site.id callee.name site.isFork)) hsite r.added callee
      dsimp only
      rw [heq]

theorem wiring_extend (r : Round) (site : CallSite) (callee : FunctionDecl) :
    Wiring (CallFlow r.solver.settings site callee) (MemorySite r.solver.settings site callee)
      (r.solver.addCallee site callee, r.added)
      ((r.extend site callee).solver, (r.extend site callee).added) :=
  wiring_connectCallee (r.solver.addCallee site callee) r.added site callee

theorem sites_extend (r : Round) (site : CallSite) (callee : FunctionDecl) :
    (r.extend site callee).solver.sites = r.solver.sites :=
  (wiring_extend r site callee).frame.sites

theorem calls_extend (r : Round) (site : CallSite) (callee : FunctionDecl) :
    (r.extend site callee).solver.calls = (r.solver.calls.insert site.id callee.id).1 :=
  (wiring_extend r site callee).frame.calls

/-! ## Connecting many callees -/

/-- **What one callee keeps, a list of them keeps**; and with registered sites none of them
fails. -/
theorem connectPairs_keeps {I : Round → Prop}
    (hsites : ∀ {site callee}, (site, callee) ∈ pairs → r.solver.sites[site.id]? = some site)
    (hI : ∀ {r site callee}, (site, callee) ∈ pairs → I r →
      ¬ r.solver.calls.hasEdge site.id callee.id = true → I (r.extend site callee))
    (h : I r) : I (connectPairs r pairs).1 ∧ (connectPairs r pairs).2 = .ok () := by
  induction pairs generalizing r with
  | nil => exact ⟨h, rfl⟩
  | cons pair pairs ih =>
    obtain ⟨site, callee⟩ := pair
    have hI' : ∀ {r site callee}, (site, callee) ∈ pairs → I r →
        ¬ r.solver.calls.hasEdge site.id callee.id = true → I (r.extend site callee) :=
      fun hmem => hI (List.mem_cons_of_mem _ hmem)
    unfold connectPairs
    rw [connectPair_eq (hsites List.mem_cons_self)]
    split_ifs with hedge
    · exact ih (fun hmem => hsites (List.mem_cons_of_mem _ hmem)) hI' h
    · refine ih (fun hmem => ?_) hI' (hI List.mem_cons_self h hedge)
      rw [sites_extend]
      exact hsites (List.mem_cons_of_mem _ hmem)

/-- The callees connected after a list of them. -/
theorem hasEdge_connectPairs (hcalls : r.solver.calls.Valid)
    (hsites : ∀ {site callee}, (site, callee) ∈ pairs → r.solver.sites[site.id]? = some site) :
    (connectPairs r pairs).1.solver.calls.hasEdge i f = true ↔
      (∃ site callee, (site, callee) ∈ pairs ∧ site.id = i ∧ callee.id = f) ∨
        r.solver.calls.hasEdge i f = true := by
  induction pairs generalizing r with
  | nil => simp [connectPairs]
  | cons pair pairs ih =>
    obtain ⟨site, callee⟩ := pair
    have hsites' : ∀ {site callee}, (site, callee) ∈ pairs → r.solver.sites[site.id]? = some site :=
      fun hmem => hsites (List.mem_cons_of_mem _ hmem)
    have hcons : (∃ c d, (c, d) ∈ (site, callee) :: pairs ∧ c.id = i ∧ d.id = f) ↔
        (∃ c d, (c, d) ∈ pairs ∧ c.id = i ∧ d.id = f) ∨ (site.id = i ∧ callee.id = f) := by
      constructor
      · rintro ⟨c, d, hmem, hcd⟩
        rcases List.mem_cons.mp hmem with heq | hmem
        · obtain ⟨rfl, rfl⟩ := Prod.mk.inj heq
          exact .inr hcd
        · exact .inl ⟨c, d, hmem, hcd⟩
      · rintro (⟨c, d, hmem, hcd⟩ | hcd)
        · exact ⟨c, d, List.mem_cons_of_mem _ hmem, hcd⟩
        · exact ⟨site, callee, List.mem_cons_self, hcd⟩
    rw [hcons, or_assoc]
    unfold connectPairs
    rw [connectPair_eq (hsites List.mem_cons_self)]
    split_ifs with hedge
    · rw [ih hcalls hsites']
      refine or_congr_right ⟨.inr, ?_⟩
      rintro (⟨rfl, rfl⟩ | h)
      · exact hedge
      · exact h
    · have hv : (r.extend site callee).solver.calls.Valid := by
        rw [calls_extend]
        exact hcalls.insert _ _
      rw [ih hv fun hmem => by rw [sites_extend]; exact hsites' hmem, calls_extend,
        hcalls.hasEdge_insert]
      simp only [eq_comm (a := i), eq_comm (a := f)]

/-- A list of callees changes nothing, or one of them is new. The first callee that is new shows up
among the sites of the round and stays there. -/
theorem connectPairs_new
    (hsites : ∀ {site callee}, (site, callee) ∈ pairs → s.sites[site.id]? = some site) :
    (connectPairs { solver := s } pairs).1 = { solver := s } ∨
      (connectPairs { solver := s } pairs).1.connected.isEmpty = false ∧
        ∃ site callee, (site, callee) ∈ pairs ∧
          ¬ s.calls.hasEdge site.id callee.id = true := by
  refine (connectPairs_keeps (I := fun r => r = { solver := s } ∨ r.connected.isEmpty = false ∧
    ∃ site callee, (site, callee) ∈ pairs ∧ ¬ s.calls.hasEdge site.id callee.id = true)
    hsites ?_ (.inl rfl)).1
  intro r site callee hmem hr hedge
  right
  constructor
  · rw [Bool.eq_false_iff, Ne, IdSet.isEmpty_iff]
    intro hnone
    exact hnone site.id ((IdSet.mem_insert ..).mpr (.inl rfl))
  · rcases hr with rfl | ⟨-, hnew⟩
    · exact ⟨site, callee, hmem, hedge⟩
    · exact hnew

/-! ## Closing a round -/

/-- Makes the classes of all given nodes wait. -/
def enqueueAll (s : Solver) (nodes : List NodeId) : Solver :=
  nodes.foldl (fun s n => (s.enqueue n).1) s

theorem enqueueAll_eq (s : Solver) (nodes : List NodeId) :
    s.enqueueAll nodes = { s with worklist := (s.enqueueAll nodes).worklist } := by
  induction nodes generalizing s with
  | nil => rfl
  | cons n nodes ih => exact ih (s.enqueue n).1

theorem Frame.enqueueAll (s : Solver) (nodes : List NodeId) : s.Frame (s.enqueueAll nodes) := by
  rw [enqueueAll_eq]
  exact ⟨rfl, rfl, rfl, rfl, rfl, rfl, rfl, rfl, rfl, rfl, rfl⟩

theorem Waiting.enqueueAll (h : s.Waiting n) (hv : s.Valid) (nodes : List NodeId) :
    (s.enqueueAll nodes).Waiting n := by
  induction nodes generalizing s with
  | nil => exact h
  | cons m nodes ih => exact ih (h.enqueue hv.worklist m) (hv.enqueue m)

theorem waiting_enqueueAll (hv : s.Valid) {nodes : List NodeId} (hn : n ∈ nodes) :
    (s.enqueueAll nodes).Waiting n := by
  induction nodes generalizing s with
  | nil => cases hn
  | cons m nodes ih =>
    rcases List.mem_cons.mp hn with rfl | hn
    · exact (waiting_enqueue hv.worklist hv.classes n).enqueueAll (hv.enqueue n) nodes
    · exact ih (hv.enqueue m) hn

theorem reportAll_eq (s : Solver) (events : List Event) :
    s.reportAll events = { s with journal := (s.reportAll events).journal } := by
  induction events generalizing s with
  | nil => rfl
  | cons e events ih => exact ih (s.report e)

/-- The sources of the copies of a round. -/
def Round.sources (r : Round) : List NodeId := r.added.toList.map Prod.fst

theorem closeRound_eq (r : Round) :
    closeRound r =
      { r.solver.enqueueAll r.sources with
        calls := (r.solver.calls.recordRound r.connected r.solver.siteIds).1
        journal := (closeRound r).journal } := by
  have hwake : r.added.toList.foldl (fun s edge => (s.enqueue edge.1).1) r.solver =
      r.solver.enqueueAll r.sources := by
    rw [enqueueAll, Round.sources, List.foldl_map]
  have hcalls : (r.solver.enqueueAll r.sources).calls = r.solver.calls := by rw [enqueueAll_eq]
  have hids : (r.solver.enqueueAll r.sources).siteIds = r.solver.siteIds := by
    rw [enqueueAll_eq]
    rfl
  unfold closeRound
  rw [hwake]
  dsimp only
  rw [reportAll_eq, hcalls, hids]

theorem hasEdge_closeRound (r : Round) (i : SiteId) (f : FunctionId) :
    (closeRound r).calls.hasEdge i f = r.solver.calls.hasEdge i f := by
  rw [closeRound_eq]
  exact CallGraph.hasEdge_recordRound ..

theorem allocations_closeRound (r : Round) : (closeRound r).allocations = r.solver.allocations := by
  rw [closeRound_eq, enqueueAll_eq]

/-- **Every node is settled, or its class waits.** -/
def Poised (s : Solver) : Prop := ∀ n, s.Waiting n ∨ s.Settled n

theorem Poised.report (h : s.Poised) (e : Event) : (s.report e).Poised :=
  fun n => (h n).imp_right fun hn => hn.mono rfl id rfl fun _ => Iff.rfl

/-- **Closing a round makes the classes wait that it touched**: those in which a copy starts. -/
theorem noticed_closeRound (hv : r.solver.Valid) (hclasses : r.solver.classes = s.classes)
    (hworklist : r.solver.worklist = s.worklist) (h : s.Logged (r.solver, r.added) n) :
    s.Noticed (closeRound r) n := by
  have hwaiting : s.Waiting n → r.solver.Waiting n := by
    rintro ⟨w, hw, hwn⟩
    exact ⟨w, hworklist ▸ hw, (same_congr hclasses).mpr hwn⟩
  rw [closeRound_eq]
  refine ⟨fun hw => (hwaiting hw).enqueueAll hv r.sources, ?_⟩
  rcases h with ⟨e, he, hen⟩ | hmoved
  · left
    have hmem : e.1 ∈ r.sources :=
      List.mem_map_of_mem (Std.ExtTreeSet.mem_toList.mpr he)
    have hwait := waiting_enqueueAll hv hmem
    rw [enqueueAll_eq] at hwait ⊢
    exact hwait.same hen
  · right
    rw [enqueueAll_eq]
    exact hmoved.trans (.aside _ n)

/-! ## A whole round -/

theorem Registered.sites_of_resolve (hr : s.Registered) (h : s.resolve targets = .ok pairs)
    (hmem : (site, callee) ∈ pairs) : s.sites[site.id]? = some site :=
  ((mem_pairs_of_resolve hr h).mp hmem).1

/-- **What a round does**: an unknown name stops it before anything has changed, and otherwise all
pairs are connected and the round is closed. -/
theorem connect_cases (hr : s.Registered) (targets : CallEdges) :
    (∃ e, s.resolve targets = .error e ∧ s.connect targets = (s, .error e)) ∨
    ∃ pairs, s.resolve targets = .ok pairs ∧
      s.connect targets = (closeRound (connectPairs { solver := s } pairs).1,
        .ok (!(connectPairs { solver := s } pairs).1.connected.isEmpty)) := by
  unfold connect
  cases hresolve : s.resolve targets with
  | error e => exact .inl ⟨e, rfl, rfl⟩
  | ok pairs =>
    have hok := (connectPairs_keeps (r := { solver := s }) (I := fun _ => True)
      (hr.sites_of_resolve hresolve) (fun _ _ _ => trivial) trivial).2
    refine .inr ⟨pairs, rfl, ?_⟩
    dsimp only
    cases hpairs : connectPairs { solver := s } pairs with
    | mk r outcome =>
      rw [hpairs] at hok
      obtain rfl : outcome = .ok () := hok
      rfl

/-- A round merges no class and looks at no address edge. -/
theorem connect_still (hr : s.Registered) (targets : CallEdges) :
    (s.connect targets).1.classes = s.classes ∧ (s.connect targets).1.seeded = s.seeded := by
  rcases connect_cases hr targets with ⟨e, -, heq⟩ | ⟨pairs, hresolve, heq⟩
  · rw [heq]
    exact ⟨rfl, rfl⟩
  · have hkeeps := (connectPairs_keeps (r := { solver := s }) (I := fun r =>
      r.solver.classes = s.classes ∧ r.solver.seeded = s.seeded)
      (hr.sites_of_resolve hresolve) (fun {r site callee} _ hI _ =>
        ⟨(wiring_extend r site callee).frame.classes.trans hI.1,
          (wiring_extend r site callee).frame.seeded.trans hI.2⟩) ⟨rfl, rfl⟩).1
    rw [heq, closeRound_eq, enqueueAll_eq]
    exact hkeeps

/-- **Nothing that a round does to a class goes unnoticed.** -/
theorem Noticed.connect (hv : s.Valid) (hr : s.Registered) (targets : CallEdges) (n : NodeId) :
    s.Noticed (s.connect targets).1 n := by
  rcases connect_cases hr targets with ⟨e, -, heq⟩ | ⟨pairs, hresolve, heq⟩
  · rw [heq]
    exact .refl s n
  · have hkeeps := (connectPairs_keeps (r := { solver := s }) (I := fun r => r.solver.Valid ∧
      r.solver.classes = s.classes ∧ r.solver.worklist = s.worklist ∧
      s.Logged (r.solver, r.added) n) (hr.sites_of_resolve hresolve) ?_
      ⟨hv, rfl, rfl, .inr (.refl s n)⟩).1
    · rw [heq]
      exact noticed_closeRound hkeeps.1 hkeeps.2.1 hkeeps.2.2.1 hkeeps.2.2.2
    · rintro r site callee - ⟨hv, hclasses, hworklist, hlogged⟩ -
      have hadd : (r.solver.addCallee site callee).Valid := hv.congr rfl rfl rfl rfl rfl
      have hlogged' : s.Logged (r.solver.addCallee site callee, r.added) n :=
        hlogged.imp id fun hmoved => hmoved.trans (.aside _ n)
      have hwiring := wiring_extend r site callee
      exact ⟨hadd.wiring hwiring, hwiring.frame.classes.trans hclasses,
        hwiring.frame.worklist.trans hworklist, hlogged'.wiring hadd hwiring⟩

/-- A round that connects no new callee changes nothing but the states of the sites. Had a callee
been new, its site would be among the connected ones. -/
theorem connect_eq_false (hr : s.Registered) (h : s.connect targets = (t, .ok false)) :
    t = { s with calls := (s.calls.recordRound ∅ s.siteIds).1, journal := t.journal } ∧
      ∃ pairs, s.resolve targets = .ok pairs ∧
        ∀ {site callee}, (site, callee) ∈ pairs → s.calls.hasEdge site.id callee.id = true := by
  rcases connect_cases hr targets with ⟨e, -, heq⟩ | ⟨pairs, hresolve, heq⟩
  · rw [h] at heq
    cases heq
  · rw [h] at heq
    obtain ⟨ht, hfalse⟩ := Prod.mk.inj heq
    injection hfalse with hfalse
    have hsites : ∀ {site callee}, (site, callee) ∈ pairs → s.sites[site.id]? = some site :=
      hr.sites_of_resolve hresolve
    rcases connectPairs_new hsites with hsame | ⟨hne, -⟩
    · refine ⟨?_, pairs, hresolve, fun hmem => ?_⟩
      · rw [ht, hsame, closeRound_eq]
        rfl
      · have hedge := (hasEdge_connectPairs (r := { solver := s }) hr.calls hsites).mpr
          (.inl ⟨_, _, hmem, rfl, rfl⟩)
        rwa [hsame] at hedge
    · rw [hne] at hfalse
      cases hfalse

/-! ## How many rounds there can be -/

/-- The pairs of a site and a function that are not connected. -/
def unconnectedPairs (s : Solver) : Finset (SiteId × FunctionId) :=
  (s.sites.keys.toFinset ×ˢ s.functions.functions.keys.toFinset).filter fun pair =>
    ¬ s.calls.hasEdge pair.1 pair.2 = true

/-- The number of callees that are left to connect. -/
def unconnected (s : Solver) : Nat := s.unconnectedPairs.card

theorem unconnected_le (s : Solver) : s.unconnected ≤ s.pairBound := by
  have hsites := List.toFinset_card_le s.sites.keys
  have hfunctions := List.toFinset_card_le s.functions.functions.keys
  rw [Std.ExtTreeMap.length_keys] at hsites hfunctions
  calc s.unconnected
      ≤ (s.sites.keys.toFinset ×ˢ s.functions.functions.keys.toFinset).card :=
        Finset.card_filter_le _ _
    _ = s.sites.keys.toFinset.card * s.functions.functions.keys.toFinset.card :=
        Finset.card_product _ _
    _ ≤ s.pairBound := Nat.mul_le_mul hsites hfunctions

theorem unconnectedPairs_subset (hsites : t.sites = s.sites)
    (hfunctions : t.functions = s.functions)
    (hcalls : ∀ i f, s.calls.hasEdge i f = true → t.calls.hasEdge i f = true) :
    t.unconnectedPairs ⊆ s.unconnectedPairs := by
  intro pair hpair
  unfold unconnectedPairs at hpair ⊢
  rw [hsites, hfunctions] at hpair
  rw [Finset.mem_filter] at hpair ⊢
  exact ⟨hpair.1, fun h => hpair.2 (hcalls _ _ h)⟩

/-- **A pair that was left is connected.** -/
def Gains (s t : Solver) : Prop :=
  ∃ pair ∈ s.unconnectedPairs, t.calls.hasEdge pair.1 pair.2 = true

theorem Gains.unconnected_lt (h : s.Gains t) (hsub : t.unconnectedPairs ⊆ s.unconnectedPairs) :
    t.unconnected < s.unconnected := by
  obtain ⟨pair, hleft, hedge⟩ := h
  refine Finset.card_lt_card (Finset.ssubset_iff_subset_ne.mpr ⟨hsub, fun heq => ?_⟩)
  rw [← heq] at hleft
  exact (Finset.mem_filter.mp hleft).2 hedge

/-- A round that reports a new callee has connected a pair that was left. -/
theorem gains_of_connect (hr : s.Registered) (h : s.connect targets = (t, .ok true)) :
    s.Gains t := by
  rcases connect_cases hr targets with ⟨e, -, heq⟩ | ⟨pairs, hresolve, heq⟩
  · rw [h] at heq
    cases heq
  · rw [h] at heq
    obtain ⟨rfl, htrue⟩ := Prod.mk.inj heq
    have hsites : ∀ {site callee}, (site, callee) ∈ pairs → s.sites[site.id]? = some site :=
      hr.sites_of_resolve hresolve
    rcases connectPairs_new hsites with hsame | ⟨-, site, callee, hmem, hnew⟩
    · rw [hsame] at htrue
      cases htrue
    · refine ⟨(site.id, callee.id),
        Finset.mem_filter.mpr ⟨Finset.mem_product.mpr ⟨?_, ?_⟩, hnew⟩, ?_⟩
      · obtain ⟨hsite, -, -⟩ := (mem_pairs_of_resolve hr hresolve).mp hmem
        rw [List.mem_toFinset, Std.ExtTreeMap.mem_keys]
        exact Std.ExtTreeMap.mem_iff_isSome_getElem?.mpr (by rw [hsite]; rfl)
      · obtain ⟨-, hcallee, -⟩ := (mem_pairs_of_resolve hr hresolve).mp hmem
        rw [List.mem_toFinset, Std.ExtTreeMap.mem_keys]
        refine Std.ExtTreeMap.mem_iff_isSome_getElem?.mpr ?_
        change (s.functions.get? callee.id).isSome = true
        rw [hcallee]
        rfl
      · rw [hasEdge_closeRound, hasEdge_connectPairs hr.calls hsites]
        exact .inl ⟨site, callee, hmem, rfl, rfl⟩

/-- A round leaves no pair that was not left before. -/
theorem unconnectedPairs_connect (hr : s.Registered) (targets : CallEdges) :
    (s.connect targets).1.unconnectedPairs ⊆ s.unconnectedPairs := by
  rcases connect_cases hr targets with ⟨e, -, heq⟩ | ⟨pairs, hresolve, heq⟩
  · rw [heq]
  · have hsites : ∀ {site callee}, (site, callee) ∈ pairs → s.sites[site.id]? = some site :=
      hr.sites_of_resolve hresolve
    have hkeeps := (connectPairs_keeps (r := { solver := s }) (I := fun r =>
      r.solver.sites = s.sites ∧ r.solver.functions = s.functions) hsites
      (fun {r site callee} _ hI _ => ⟨(sites_extend r site callee).trans hI.1,
        (wiring_extend r site callee).frame.functions.trans hI.2⟩) ⟨rfl, rfl⟩).1
    rw [heq]
    refine unconnectedPairs_subset ?_ ?_ fun i f hedge => ?_
    · rw [closeRound_eq, enqueueAll_eq]
      exact hkeeps.1
    · rw [closeRound_eq, enqueueAll_eq]
      exact hkeeps.2
    · rw [hasEdge_closeRound, hasEdge_connectPairs hr.calls hsites]
      exact .inr hedge

/-- **A round with a new callee leaves fewer of them.** -/
theorem unconnected_lt_of_connect (hr : s.Registered) (h : s.connect targets = (t, .ok true)) :
    t.unconnected < s.unconnected := by
  have hsub := unconnectedPairs_connect hr targets
  rw [h] at hsub
  exact (gains_of_connect hr h).unconnected_lt hsub

end Solver

end PointsTo
