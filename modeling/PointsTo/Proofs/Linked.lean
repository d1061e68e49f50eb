import Mathlib.Logic.Relation
import PointsTo.Proofs.Contained
import PointsTo.Proofs.Solver.Targets

/-!
# Linked nodes

Connecting a callee does not unify anything: it leaves copies between classes, which are unified
when the classes are treated, and it adds no copy at all between nodes that share a class or whose
classes have one already. What it does leave behind is a chain of copies within and between classes.
Such chains only grow, and in a state that satisfies its copies they lie within one class.

Operations that name nodes of the graph keep the flow of every connected callee linked, and the
memory of every site linked to the result of its call.

## Main definitions

* `Solver.Linked`: a chain of copies, in either direction, between two classes
* `Solver.Copied`: a single copy between two classes
* `Solver.Housed`, `Solver.Furnished`: the memory of a site, and of every site, is in order
* `Solver.Honoured`: so is the flow of every connected callee

## Main results

* `copied_connectCallee`: connecting a callee copies its flow
* `Honoured.connect`: a round keeps the flow of all callees linked
* `Reachable.honoured`: so do operations that name nodes of the graph
-/

namespace PointsTo

namespace Solver

variable {s t : Solver} {added : CopySet} {site : CallSite} {callee : FunctionDecl} {i : SiteId}
  {m : Allocation} {a b c : NodeId} {pairs : List (NodeId × NodeId)}

/-- **A chain of copies**, in either direction, within and between classes. -/
def Linked (s : Solver) : NodeId → NodeId → Prop :=
  Relation.EqvGen fun a b => s.Same a b ∨ s.graph.hasEdge .copy a b = true

namespace Linked

theorem same (h : s.Same a b) : s.Linked a b := .rel _ _ (.inl h)

theorem copy (h : s.graph.hasEdge .copy a b = true) : s.Linked a b := .rel _ _ (.inr h)

theorem mono (h : s.Linked a b) (hst : s.Grows t) : t.Linked a b := by
  have hlink : ∀ a b, s.Same a b ∨ s.graph.hasEdge .copy a b = true →
      t.Same a b ∨ t.graph.hasEdge .copy a b = true := fun _ _ h => h.imp hst.same hst.copies
  exact Relation.EqvGen.mono hlink _ _ h

/-- Where copies are satisfied, a chain stays in one class. -/
theorem same_of_copies (h : s.Linked a b)
    (hcopies : ∀ {a b}, s.graph.hasEdge .copy a b = true → s.Same a b) : s.Same a b := by
  induction h with
  | rel a b h => exact h.elim id hcopies
  | refl a => exact .refl s a
  | symm a b _ ih => exact ih.symm
  | trans a b c _ _ hab hbc => exact hab.trans hbc

end Linked

/-! ## Connecting copies -/

/-- Two nodes share a class, or a copy leads from the representative of the one to that of the
other. -/
def Copied (s : Solver) (a b : NodeId) : Prop :=
  s.Same a b ∨ s.graph.hasEdge .copy (s.representative a) (s.representative b) = true

theorem Copied.linked (h : s.Copied a b) (hv : s.classes.Valid) : s.Linked a b := by
  have hra : s.Linked a (s.representative a) := .same (same_representative hv a)
  have hrb : s.Linked b (s.representative b) := .same (same_representative hv b)
  rcases h with hsame | hedge
  · exact .same hsame
  · exact (hra.trans _ _ _ (Linked.copy hedge)).trans _ _ _ (hrb.symm _ _)

/-- Growth that merges no class keeps nodes copied. -/
theorem Copied.mono (h : s.Copied a b) (hclasses : t.classes = s.classes) (hst : s.Grows t) :
    t.Copied a b := by
  unfold Copied
  rw [same_congr hclasses, representative_congr hclasses, representative_congr hclasses]
  exact h.imp_right hst.copies

theorem Copied.wiring {F : NodeId → NodeId → Prop} {A : SiteId → Prop} {u v : Solver × CopySet}
    (h : u.1.Copied a b) (hw : Wiring F A u v) : v.1.Copied a b :=
  h.mono (Wiring.frame hw).classes (.wiring hw)

/-- A copy between nodes of the graph is refused only if it says nothing new. -/
theorem copied_connectCopy (hg : s.Grounded) (ha : s.graph.hasNode a = true)
    (hb : s.graph.hasNode b = true) (added : CopySet) :
    (s.connectCopy added a b).1.Copied a b := by
  rcases s.connectCopy_cases added a b with ⟨heq, hheld⟩ | ⟨-, -, heq⟩
  · rw [heq]
    exact hheld (hg.hasNode_representative ha) (hg.hasNode_representative hb)
  · rw [heq]
    exact .inr (hasEdge_withCopy.mpr (.inl ⟨rfl, rfl, rfl⟩))

theorem copied_connectCopies (hg : s.Grounded)
    (hnodes : ∀ e ∈ pairs, s.graph.hasNode e.1 = true ∧ s.graph.hasNode e.2 = true)
    (added : CopySet) : ∀ e ∈ pairs, (s.connectCopies added pairs).1.Copied e.1 e.2 := by
  induction pairs generalizing s added with
  | nil => exact fun e he => absurd he List.not_mem_nil
  | cons first rest ih =>
    obtain ⟨x, y⟩ := first
    have hfirst := hnodes (x, y) List.mem_cons_self
    have hgrows := Grows.connectCopy s added x y
    intro e he
    rcases List.mem_cons.mp he with rfl | he
    · exact Copied.wiring (copied_connectCopy hg hfirst.1 hfirst.2 added) (wiring_copies _ _ rest)
    · refine ih (hg.connectCopy added x y) (fun e he => ?_) _ e he
      have hends := hnodes e (List.mem_cons_of_mem _ he)
      exact ⟨hgrows.hasNode hends.1, hgrows.hasNode hends.2⟩

theorem copied_connectSurplus (hg : s.Grounded)
    (hnodes : ∀ n ∈ site.nodes ++ callee.nodes, s.graph.hasNode n = true) {k : Nat}
    (hvarargs : s.settings.connectVarargs = true) (hk : callee.formals.length ≤ k)
    (ha : site.args[k]? = some a) (hb : callee.vararg = some b) (added : CopySet) :
    (s.connectSurplus added site callee).1.Copied a b := by
  have hmem : a ∈ surplusArgs site callee := by
    rw [surplusArgs, List.mem_iff_getElem?]
    refine ⟨k - callee.formals.length, ?_⟩
    rwa [List.getElem?_drop, Nat.add_sub_cancel' hk]
  have hpairs : s.connectSurplus added site callee =
      s.connectCopies added ((surplusArgs site callee).map (·, b)) := by
    unfold connectSurplus
    cases hsurplus : surplusArgs site callee with
    | nil =>
      rw [hsurplus] at hmem
      cases hmem
    | cons x xs =>
      rw [hb]
      exact if_pos hvarargs
  rw [hpairs]
  refine copied_connectCopies hg (fun e he => ?_) added (a, b) (List.mem_map_of_mem hmem)
  obtain ⟨x, hx, rfl⟩ := List.mem_map.mp he
  have hargs : x ∈ site.args := List.mem_of_mem_drop hx
  exact ⟨hnodes x (by simp [CallSite.nodes, hargs]), hnodes b (by simp [FunctionDecl.nodes, hb])⟩

/-- Connecting the parameters of a call copies each pair that flows together. The stages are the
results, the arguments, and what is beyond them. -/
theorem copied_connectParameters (hg : s.Grounded)
    (hnodes : ∀ n ∈ site.nodes ++ callee.nodes, s.graph.hasNode n = true)
    (hflow : ParameterFlow s.settings site callee a b) (added : CopySet) :
    (s.connectParameters added site callee).1.Copied a b := by
  have hknown : ∀ {x y}, ParameterFlow s.settings site callee x y →
      s.graph.hasNode x = true ∧ s.graph.hasNode y = true := fun h =>
    ⟨hnodes _ h.mem_nodes.1, hnodes _ h.mem_nodes.2⟩
  obtain ⟨r, hr⟩ : ∃ r, s.connectCopies added (resultCopies site callee) = r := ⟨_, rfl⟩
  obtain ⟨q, hq⟩ : ∃ q, (r.1.reportMissing site callee).connectCopies r.2
      (argumentCopies site callee) = q := ⟨_, rfl⟩
  have heq : s.connectParameters added site callee = q.1.connectSurplus q.2 site callee := by
    rw [← hq, ← hr]
    rfl
  have hresults := wiring_copies s added (resultCopies site callee)
  have hreport : Wiring (fun _ _ => True) (fun _ => False) r
      (r.1.reportMissing site callee, r.2) := wiring_reportMissing ..
  have harguments := wiring_copies (r.1.reportMissing site callee) r.2
    (argumentCopies site callee)
  rw [hr] at hresults
  rw [hq] at harguments
  have hsr := hresults.trans hreport
  have hend := wiring_connectSurplus (A := fun _ => False) q.1 q.2 site callee
  rw [heq]
  cases hflow with
  | result ha hb =>
    have hmem : (a, b) ∈ resultCopies site callee := by simp [resultCopies, ha, hb]
    have hcopied := copied_connectCopies hg
      (fun e he => hknown (flow_of_mem_resultCopies he)) added (a, b) hmem
    rw [hr] at hcopied
    exact (hcopied.wiring (hreport.trans harguments)).wiring hend
  | @argument k ha hb =>
    have hmem : (a, b) ∈ argumentCopies site callee :=
      List.mem_iff_getElem?.mpr ⟨k, List.getElem?_zip_eq_some.mpr ⟨ha, hb⟩⟩
    have hgrows := Grows.wiring hsr
    have hcopied := copied_connectCopies (hg.wiring hsr) (fun e he => ?_) r.2 (a, b) hmem
    · dsimp only at hcopied
      rw [hq] at hcopied
      exact hcopied.wiring hend
    · have hends := hknown (flow_of_mem_argumentCopies he)
      exact ⟨hgrows.hasNode hends.1, hgrows.hasNode hends.2⟩
  | surplus hvarargs hk ha hb =>
    have hsq := hsr.trans harguments
    have hgrows := Grows.wiring hsq
    exact copied_connectSurplus (hg.wiring hsq) (fun n hn => hgrows.hasNode (hnodes n hn))
      (hgrows.settings ▸ hvarargs) hk ha hb q.2

theorem copied_connectFork (hg : s.Grounded) (hkind : site.kind = .fork)
    (hnodes : ∀ n ∈ site.nodes ++ callee.nodes, s.graph.hasNode n = true)
    (hflow : ForkFlow site callee a b) (added : CopySet) :
    (s.connectFork added site callee).1.Copied a b := by
  obtain ⟨ha, hb⟩ := hflow.mem_nodes
  have harg : site.forkArg = some a := by
    rw [CallSite.forkArg, if_pos (by simp [CallSite.isFork, hkind])]
    exact hflow.1
  have hentry : callee.forkEntry = some b := hflow.2
  unfold connectFork
  rw [harg, hentry]
  exact copied_connectCopy hg (hnodes a ha) (hnodes b hb) added

/-! ## Memory -/

/-- The memory of a site is in order: the value points to the object and is linked to the result of
the call. -/
structure Housed (s : Solver) (i : SiteId) (m : Allocation) : Prop where
  object : m.object ∈ s.pointsTo m.value
  value : ∀ {site r}, s.sites[i]? = some site → site.ret = some r → s.Linked m.value r

theorem Housed.mono (h : s.Housed i m) (hst : s.Grows t) : t.Housed i m :=
  ⟨hst.pointsTo h.object, fun hsite hr => (h.value (hst.sites ▸ hsite) hr).mono hst⟩

/-- **The memory of every site is in order.** -/
def Furnished (s : Solver) : Prop := ∀ i m, s.allocation? i = some m → s.Housed i m

theorem Furnished.mono (h : s.Furnished) (hst : s.Grows t)
    (hmade : ∀ {i m}, t.allocation? i = some m → s.allocation? i = some m) : t.Furnished :=
  fun i m hm => (h i m (hmade hm)).mono hst

theorem Furnished.wiring {F : NodeId → NodeId → Prop} {u v : Solver × CopySet}
    (h : u.1.Furnished) (hw : Wiring F (fun _ => False) u v) : v.1.Furnished :=
  h.mono (.wiring hw) fun hm => (allocation?_wiring hw hm).resolve_right id

/-- A fresh value points to its object, since no class holds it yet. -/
theorem mem_pointsTo_createAllocation (hc : s.Contained) (i : SiteId) :
    (s.createAllocation i).2.object ∈
      (s.createAllocation i).1.pointsTo (s.createAllocation i).2.value := by
  have hrep := hc.representative_of_le (Nat.le_refl s.graph.nodeCount)
  rw [createAllocation_snd]
  change _ ∈ (s.createAllocation i).1.store.get (s.representative s.graph.nodeCount)
  rw [hrep, get_createAllocation, if_pos rfl]
  exact (IdSet.mem_insert ..).mpr (.inl rfl)

/-- Fresh memory is in order once it is copied to the result of the call. -/
theorem housed_createAllocation (hv : s.Valid) (hc : s.Contained) (hr : s.Registered)
    (hsite : s.sites[i]? = some site) (added : CopySet) :
    ((s.createAllocation i).1.connectCopies added
      (site.ret.toList.map ((s.createAllocation i).2.value, ·))).1.Housed i
        (s.createAllocation i).2 := by
  have hct := hc.createAllocation i
  have hown : (s.createAllocation i).1.allocation? i = some (s.createAllocation i).2 := by
    rw [allocation?_createAllocation, if_pos rfl]
  have hw := wiring_copies (s.createAllocation i).1 added
    (site.ret.toList.map ((s.createAllocation i).2.value, ·))
  have hgrows := Grows.wiring hw
  refine ⟨hgrows.pointsTo (mem_pointsTo_createAllocation hc i), fun {site' r} hsite' hret => ?_⟩
  rw [hgrows.sites] at hsite'
  obtain rfl : site = site' := Option.some.inj (hsite.symm.trans hsite')
  have hcopied := copied_connectCopies hct.grounded (fun e he => ?_) added
    ((s.createAllocation i).2.value, r) (List.mem_map_of_mem (Option.mem_toList.mpr hret))
  · exact hcopied.linked ((hv.createAllocation i).wiring hw).classes
  · obtain ⟨r', hr', rfl⟩ := List.mem_map.mp he
    have hknown : s.graph.hasNode r' = true :=
      hr.hasNode_site hsite (by simp [CallSite.nodes, Option.mem_toList.mp hr'])
    exact ⟨(hct.allocations hown).1, hasNode_createAllocation hknown i⟩

/-- Asking for the memory of a site leaves all memory in order. The copies make no memory: what a
site has is the fresh piece or was there before. -/
theorem Furnished.allocate (h : s.Furnished) (hv : s.Valid) (hc : s.Contained)
    (hr : s.Registered) (added : CopySet) (i : SiteId) :
    (s.allocate added i).1.1.Furnished := by
  unfold Solver.allocate
  cases hsite : s.sites[i]? with
  | none => exact h
  | some site =>
    dsimp only
    cases hmade : s.allocation? i with
    | some made =>
      exact h.wiring (wiring_copies s added _)
    | none =>
      have hw := wiring_copies (s.createAllocation i).1 added
        (site.ret.toList.map ((s.createAllocation i).2.value, ·))
      have hst : s.Grows (s.createAllocation i).1 := .createAllocation hmade
      intro j m hm
      have hm := (allocation?_wiring hw hm).resolve_right id
      rw [allocation?_createAllocation] at hm
      split at hm
      · rename_i hj
        cases hm
        exact hj ▸ housed_createAllocation hv hc hr hsite added
      · exact (h j m hm).mono (hst.trans (.wiring hw))

theorem allocation?_allocate (hsite : s.sites[i]? = some site) (added : CopySet) :
    ∃ m, (s.allocate added i).1.1.allocation? i = some m := by
  have hkept : ∀ {t : Solver} {made : Allocation} {pairs}, t.allocation? i = some made →
      (t.connectCopies added pairs).1.allocation? i = some made := fun {t _ pairs} h =>
    (Grows.wiring (wiring_copies t added pairs)).allocations h
  unfold Solver.allocate
  rw [hsite]
  dsimp only
  cases hmade : s.allocation? i with
  | some made => exact ⟨made, hkept hmade⟩
  | none =>
    refine ⟨(s.createAllocation i).2, hkept ?_⟩
    rw [allocation?_createAllocation, if_pos rfl]

/-! ## Callees -/

theorem Furnished.connectCall (h : s.Furnished) (hv : s.Valid) (hc : s.Contained)
    (hr : s.Registered) (added : CopySet) (site : CallSite) (callee : FunctionDecl) :
    (s.connectCall added site callee).1.1.Furnished := by
  have hallocate := h.allocate hv hc hr added site.id
  unfold Solver.connectCall
  split
  · split
    · rename_i heq
      rwa [heq] at hallocate
    · rename_i heq
      rw [heq] at hallocate
      exact hallocate.wiring (wiring_connectParameters ..)
  · exact h.wiring (wiring_connectParameters s added site callee)

/-- **Connecting a callee copies its flow.** -/
theorem copied_connectCallee (hg : s.Grounded) (hsite : s.sites[site.id]? = some site)
    (hnodes : ∀ n ∈ site.nodes ++ callee.nodes, s.graph.hasNode n = true)
    (hflow : CallFlow s.settings site callee a b) (added : CopySet) :
    (s.connectCallee added site callee).1.Copied a b := by
  unfold connectCallee
  cases hkind : site.kind with
  | fork =>
    rw [if_pos (by simp [CallSite.isFork, hkind])]
    simp only [CallFlow, hkind] at hflow
    exact copied_connectFork hg hkind hnodes hflow added
  | call =>
    rw [if_neg (by simp [CallSite.isFork, hkind]), connectCall_eq hsite]
    simp only [CallFlow, hkind] at hflow
    split
    · have hw := wiring_allocate (F := fun _ _ => False) s added site.id
      have hgrows := Grows.wiring hw
      exact copied_connectParameters (hg.wiring hw) (fun n hn => hgrows.hasNode (hnodes n hn))
        (hgrows.settings ▸ hflow) _
    · exact copied_connectParameters hg hnodes hflow added

/-- Connecting a callee that allocates makes memory. -/
theorem allocation?_connectCallee (hsite : s.sites[site.id]? = some site)
    (hkind : site.kind = .call) (halloc : Allocates s.settings callee) (added : CopySet) :
    ∃ m, (s.connectCallee added site callee).1.allocation? site.id = some m := by
  unfold connectCallee
  rw [if_neg (by simp [CallSite.isFork, hkind]), connectCall_eq hsite,
    if_pos (by simp [halloc.1, halloc.2])]
  obtain ⟨m, hm⟩ := allocation?_allocate hsite added
  exact ⟨m, (Grows.wiring (wiring_connectParameters (A := fun _ => False) ..)).allocations hm⟩

theorem Furnished.connectCallee (h : s.Furnished) (hv : s.Valid) (hc : s.Contained)
    (hr : s.Registered) (added : CopySet) (site : CallSite) (callee : FunctionDecl) :
    (s.connectCallee added site callee).1.Furnished := by
  unfold Solver.connectCallee
  split
  · exact h.wiring (wiring_connectFork s added site callee)
  · exact h.connectCall hv hc hr added site callee

/-! ## One more callee -/

/-- After one more callee, a connected callee is the new one or was connected before. -/
theorem connected_extend {r : Round} {site' : CallSite} {callee' : FunctionDecl}
    (hr : r.solver.Registered) (hsite : r.solver.sites[site.id]? = some site)
    (hcallee : r.solver.functions.get? callee.id = some callee)
    (h : (r.extend site callee).solver.Connected site' callee') :
    (site' = site ∧ callee' = callee) ∨ r.solver.Connected site' callee' := by
  obtain ⟨hsite', hcallee', hedge⟩ := h
  have hframe := (wiring_extend r site callee).frame
  rw [hframe.sites] at hsite'
  rw [hframe.functions] at hcallee'
  rw [calls_extend, hr.calls.hasEdge_insert] at hedge
  rcases hedge with ⟨hi, hf⟩ | hedge
  · rw [hi] at hsite'
    rw [hf] at hcallee'
    exact .inl ⟨Option.some.inj (hsite'.symm.trans hsite),
      Option.some.inj (hcallee'.symm.trans hcallee)⟩
  · exact .inr ⟨hsite', hcallee', hedge⟩

/-- One more callee has its flow copied. -/
theorem copied_extend {r : Round} (hr : r.solver.Registered) (hg : r.solver.Grounded)
    (hsite : r.solver.sites[site.id]? = some site)
    (hcallee : r.solver.functions.get? callee.id = some callee)
    (hflow : CallFlow r.solver.settings site callee a b) :
    (r.extend site callee).solver.Copied a b := by
  refine copied_connectCallee (s := r.solver.addCallee site callee) hg hsite (fun n hn => ?_) hflow
    r.added
  rcases List.mem_append.mp hn with hn | hn
  · exact hr.hasNode_site hsite hn
  · exact hr.hasNode_function hcallee hn

/-! ## States that honour their calls -/

/-- **The flow of every connected callee is linked**, and the memory of every site is in order, made
for every callee that allocates. -/
structure Honoured (s : Solver) : Prop where
  named : ∀ {i f}, s.calls.hasEdge i f = true →
    ∃ site callee, s.sites[i]? = some site ∧ s.functions.get? f = some callee
  flow : ∀ {site callee a b}, s.Connected site callee → CallFlow s.settings site callee a b →
    s.Linked a b
  made : ∀ {site callee}, s.Connected site callee → site.kind = .call →
    Allocates s.settings callee → ∃ m, s.allocation? site.id = some m
  furnished : s.Furnished

namespace Honoured

/-- Growth that connects no callee keeps a state honoured, if it keeps memory in order. -/
theorem mono (h : s.Honoured) (hst : s.Grows t)
    (hcalls : ∀ {i f}, t.calls.hasEdge i f = true → s.calls.hasEdge i f = true)
    (hfurnished : t.Furnished) : t.Honoured := by
  have hconn : ∀ {site callee}, t.Connected site callee → s.Connected site callee := fun hc =>
    ⟨hst.sites ▸ hc.registered, hst.functions ▸ hc.declared, hcalls hc.edge⟩
  refine ⟨fun hedge => ?_, fun hc hflow => ?_, fun hc hkind halloc => ?_, hfurnished⟩
  · rw [hst.sites, hst.functions]
    exact h.named (hcalls hedge)
  · exact (h.flow (hconn hc) (hst.settings ▸ hflow)).mono hst
  · obtain ⟨m, hm⟩ := h.made (hconn hc) hkind (hst.settings ▸ halloc)
    exact ⟨m, hst.allocations hm⟩

/-- What leaves calls and memory alone keeps a state honoured. -/
theorem frame (h : s.Honoured) (hst : s.Grows t) (hcalls : t.calls = s.calls)
    (hmade : t.allocations = s.allocations) : t.Honoured := by
  refine h.mono hst (fun hedge => hcalls ▸ hedge) (h.furnished.mono hst fun {i m} hm => ?_)
  rwa [allocation?, hmade] at hm

/-- **Connecting one more callee** honours it, and the others stay honoured. -/
theorem extend {r : Round} (h : r.solver.Honoured) (hs : r.solver.Coherent)
    (hc : r.solver.Contained) (hsite : r.solver.sites[site.id]? = some site)
    (hcallee : r.solver.functions.get? callee.id = some callee)
    (hnew : ¬ r.solver.calls.hasEdge site.id callee.id = true) :
    (r.extend site callee).solver.Honoured := by
  have hstep : Step .analysis r.solver (r.solver.addCallee site callee) :=
    .callee hsite hcallee hnew
  have hadd := hs.step hstep
  have hcadd := hc.step hs.valid Licence.bounded_analysis hstep
  have hadded := hstep.grows hs.valid hs.registered.calls
  have hwiring := wiring_extend r site callee
  have hgrows := hadded.trans (.wiring hwiring)
  refine ⟨fun hedge => ?_, fun hc' hflow => ?_, fun hc' hkind halloc => ?_, ?_⟩
  · rw [hgrows.sites, hgrows.functions]
    rw [calls_extend, hs.registered.calls.hasEdge_insert] at hedge
    rcases hedge with ⟨rfl, rfl⟩ | hedge
    · exact ⟨site, callee, hsite, hcallee⟩
    · exact h.named hedge
  · rw [hgrows.settings] at hflow
    rcases connected_extend hs.registered hsite hcallee hc' with ⟨rfl, rfl⟩ | hold
    · exact (copied_extend hs.registered hc.grounded hsite hcallee hflow).linked
        (hadd.valid.wiring hwiring).classes
    · exact (h.flow hold hflow).mono hgrows
  · rw [hgrows.settings] at halloc
    rcases connected_extend hs.registered hsite hcallee hc' with ⟨rfl, rfl⟩ | hold
    · exact allocation?_connectCallee (s := r.solver.addCallee _ _) hsite hkind halloc r.added
    · obtain ⟨m, hm⟩ := h.made hold hkind halloc
      exact ⟨m, hgrows.allocations hm⟩
  · exact (h.furnished.mono hadded id).connectCallee hadd.valid hcadd hadd.registered r.added site
      callee

/-- **A round keeps the flow of all callees linked.** -/
theorem connect (h : s.Honoured) (hs : s.Coherent) (hc : s.Contained) (targets : CallEdges) :
    (s.connect targets).1.Honoured := by
  rcases connect_cases hs.registered targets with ⟨e, -, heq⟩ | ⟨pairs, hresolve, heq⟩
  · rw [heq]
    exact h
  · have hpairs := connectPairs_keeps (r := { solver := s })
      (I := fun r => Steps .analysis s r.solver ∧ r.solver.Honoured)
      (hs.registered.sites_of_resolve hresolve) ?_ ⟨.refl, h⟩
    · obtain ⟨⟨-, hhonoured⟩, -⟩ := hpairs
      rw [heq]
      have hst := Grows.closeRound (connectPairs { solver := s } pairs).1
      refine hhonoured.mono hst (fun hedge => hasEdge_closeRound .. ▸ hedge)
        (hhonoured.furnished.mono hst fun hm => ?_)
      rwa [allocation?, allocations_closeRound] at hm
    · rintro r site callee hmem ⟨hsteps, hhonoured⟩ hnew
      obtain ⟨hsite, hcallee, -⟩ := (mem_pairs_of_resolve hs.registered hresolve).mp hmem
      have hr := hs.steps hsteps
      have hgrows := hsteps.grows hs
      rw [← hgrows.sites] at hsite
      rw [← hgrows.functions] at hcallee
      exact ⟨hsteps.trans (steps_extend (Licence.le_refl _) hr hsite hcallee hnew),
        hhonoured.extend hr (hc.steps hs Licence.bounded_analysis hsteps) hsite hcallee hnew⟩

theorem wiring {F : NodeId → NodeId → Prop} {A : SiteId → Prop} {u v : Solver × CopySet}
    (h : u.1.Honoured) (hw : Wiring F A u v) (hfurnished : v.1.Furnished) : v.1.Honoured :=
  h.mono (.wiring hw) (fun hedge => (Wiring.frame hw).calls ▸ hedge) hfurnished

theorem solve_report (h : s.Honoured) (hs : s.Coherent) (e : Event) :
    (s.report e).solve.1.Honoured := by
  obtain ⟨seeded, hframe⟩ := Analysis.frame_solve_report hs e
  have hsteps := Analysis.steps_solve_report (L := .analysis) hs e
  exact h.frame (hsteps.grows hs) hframe.calls hframe.allocations

theorem run {σ : Type} (h : s.Honoured) (hs : s.Coherent) (hc : s.Contained)
    (source : TargetSource σ) (memory : σ) :
    (Analysis.run ⟨s, source, memory⟩).1.solver.Honoured := by
  have hsteps : ∀ {t u : Solver}, t.Coherent ∧ t.Contained → Steps .analysis t u →
      u.Coherent ∧ u.Contained := fun ht hsteps =>
    ⟨ht.1.steps hsteps, ht.2.steps ht.1 Licence.bounded_analysis hsteps⟩
  refine (Analysis.run_keeps (a := ⟨s, source, memory⟩)
    (I := fun t => (t.Coherent ∧ t.Contained) ∧ t.Honoured) ?_ ?_ ?_ ?_ hs ⟨⟨hs, hc⟩, h⟩).2
  · rintro t ⟨ht, hhonoured⟩
    have hstart := Analysis.steps_start (L := .analysis) t
    have hframe := Analysis.frame_start t
    exact ⟨hsteps ht hstart, hhonoured.frame (hstart.grows ht.1) hframe.calls hframe.allocations⟩
  · rintro t e - ⟨ht, hhonoured⟩
    exact ⟨hsteps ht (Analysis.steps_solve_report ht.1 e), hhonoured.solve_report ht.1 e⟩
  · rintro t targets - ⟨ht, hhonoured⟩
    exact ⟨hsteps ht (steps_connect (Licence.le_refl _) ht.1 targets),
      hhonoured.connect ht.1 ht.2 targets⟩
  · rintro t rounds ⟨ht, hhonoured⟩
    have hfinish := Relation.ReflTransGen.single
      (Analysis.step_finish (L := .analysis) t rounds)
    exact ⟨hsteps ht hfinish, hhonoured.frame (Steps.grows ht.1 hfinish) rfl rfl⟩

end Honoured

end Solver

open Solver

variable {p : Problem} {s : Solver}

theorem honoured_ofProblem (h : ofProblem p = .ok s) : s.Honoured := by
  refine ⟨fun hedge => ?_, fun hc => ?_, fun hc => ?_, fun i m hm => ?_⟩
  · exact absurd hedge (not_hasEdge_ofProblem h)
  · exact absurd hc.edge (not_hasEdge_ofProblem h)
  · exact absurd hc.edge (not_hasEdge_ofProblem h)
  · cases (allocation?_ofProblem h).symm.trans hm

theorem Operation.honoured (op : Operation) (hs : s.Coherent) (hc : s.Contained)
    (h : s.Honoured) : (op.apply s).Honoured := by
  cases op with
  | hand op => exact h.frame (op.grows hs.valid) (op.frame s).calls (op.frame s).allocations
  | enqueueNodes =>
    have hsteps := steps_enqueueAll (L := .analysis) (s := s) fun n hn =>
      ConstraintGraph.mem_nodeIds.mp hn
    have hframe := Frame.enqueueAll s s.graph.nodeIds
    exact h.frame (hsteps.grows hs) hframe.calls hframe.allocations
  | seed =>
    have hframe := s.frame_seedEdges s.addressEdges
    have hsteps := steps_seedEdges (L := .analysis) (s := s) fun e he => he
    exact h.frame (hsteps.grows hs) hframe.calls hframe.allocations
  | solve =>
    obtain ⟨seeded, hframe⟩ := frame_solve hs
    exact h.frame (Steps.grows hs (steps_solve (L := .analysis) hs)) hframe.calls
      hframe.allocations
  | analyze source memory => exact h.run hs hc source memory
  | connect targets => exact h.connect hs hc targets
  | connectCall added site callee =>
    exact h.wiring (wiring_connectCall s added site callee)
      (h.furnished.connectCall hs.valid hc hs.registered added site callee)
  | connectFork added site callee =>
    have hw := wiring_connectFork (A := fun _ => False) s added site callee
    exact h.wiring hw (h.furnished.wiring hw)
  | allocate added i =>
    exact h.wiring (wiring_allocate (F := fun _ _ => False) s added i)
      (h.furnished.allocate hs.valid hc hs.registered added i)

/-- **Operations that name nodes of the graph leave the flow of all callees linked.** -/
theorem Reachable.honoured (hp : p.Made) (hc : p.Contained) (h : Reachable .known p s) :
    s.Honoured := by
  induction h with
  | start hs => exact honoured_ofProblem hs
  | apply op hs _ ih => exact op.honoured (hs.coherent hp) (hs.contained hp hc) ih

end PointsTo
