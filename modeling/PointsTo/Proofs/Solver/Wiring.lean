import Mathlib.Logic.Relation
import PointsTo.Proofs.Call
import PointsTo.Proofs.Solver.Treat
import PointsTo.Solver.Connect

/-!
# Connecting callees

Connecting a callee changes no class. It adds copies between representatives, and at most one piece
of memory a site, which is held by two fresh nodes. `Wiring` relates two states when the second one
comes from the first by such moves; what the moves keep, every function that connects callees keeps.

## Main definitions

* `ParameterFlow`, `ForkFlow`, `CallFlow`: the pairs of nodes that a callee makes flow together
* `Solver.Wiring`: adding copies and memory, one after the other
* `Solver.connectCallee`: connecting one callee, by the kind of the site
* `Solver.Logged`: a class is as it was, or a copy on the list starts in it

## Main results

* `connectCopy_cases`: what adding a copy does
* `ValidBut.connectCopy`, `ValidBut.createAllocation`: both moves keep a state valid
* `wiring_connectCallee`, `wiring_allocate`: connecting is a sequence of moves
* `Logged.wiring`: what is connected is listed
-/

namespace PointsTo

/-! ## What flows where -/

/-- The pairs of nodes that a callee of a call makes flow together. -/
inductive ParameterFlow (settings : Settings) (site : CallSite) (callee : FunctionDecl) :
    NodeId → NodeId → Prop
  /-- The result of the callee into the result of the call. -/
  | result {a b : NodeId} : callee.ret = some a → site.ret = some b →
      ParameterFlow settings site callee a b
  /-- An argument into its parameter. -/
  | argument {a b : NodeId} {i : Nat} : site.args[i]? = some a → callee.formals[i]? = some b →
      ParameterFlow settings site callee a b
  /-- An argument beyond the parameters into the variadic node. -/
  | surplus {a b : NodeId} {i : Nat} : settings.connectVarargs = true →
      callee.formals.length ≤ i → site.args[i]? = some a → callee.vararg = some b →
      ParameterFlow settings site callee a b

/-- The pair of nodes that a callee of a fork makes flow together. -/
def ForkFlow (site : CallSite) (callee : FunctionDecl) (a b : NodeId) : Prop :=
  site.args.head? = some a ∧ callee.formals.head? = some b

/-- **The pairs of nodes that a callee makes flow together.** -/
def CallFlow (settings : Settings) (site : CallSite) (callee : FunctionDecl) (a b : NodeId) :
    Prop :=
  match site.kind with
  | .call => ParameterFlow settings site callee a b
  | .fork => ForkFlow site callee a b

/-- Of the settings only the one for variadic nodes decides what flows. -/
theorem CallFlow.congr {settings settings' : Settings} {site : CallSite} {callee : FunctionDecl}
    {a b : NodeId} (heq : settings.connectVarargs = settings'.connectVarargs)
    (h : CallFlow settings site callee a b) : CallFlow settings' site callee a b := by
  unfold CallFlow at h ⊢
  split at h
  · cases h with
    | result ha hb => exact .result ha hb
    | argument ha hb => exact .argument ha hb
    | surplus hvarargs hk ha hb => exact .surplus (heq ▸ hvarargs) hk ha hb
  · exact h

theorem ParameterFlow.mem_nodes {settings : Settings} {site : CallSite} {callee : FunctionDecl}
    {a b : NodeId} (h : ParameterFlow settings site callee a b) :
    a ∈ site.nodes ++ callee.nodes ∧ b ∈ site.nodes ++ callee.nodes := by
  cases h with
  | result ha hb => simp [CallSite.nodes, FunctionDecl.nodes, ha, hb]
  | argument ha hb =>
    simp [CallSite.nodes, FunctionDecl.nodes, List.mem_of_getElem? ha, List.mem_of_getElem? hb]
  | surplus _ _ ha hb => simp [CallSite.nodes, FunctionDecl.nodes, List.mem_of_getElem? ha, hb]

theorem ForkFlow.mem_nodes {site : CallSite} {callee : FunctionDecl} {a b : NodeId}
    (h : ForkFlow site callee a b) :
    a ∈ site.nodes ++ callee.nodes ∧ b ∈ site.nodes ++ callee.nodes := by
  have ha := List.mem_of_head? h.1
  have hb := List.mem_of_head? h.2
  simp [CallSite.nodes, FunctionDecl.nodes, ha, hb]

namespace Solver

variable {s t : Solver} {added : CopySet} {u v : Solver × CopySet} {F F' : NodeId → NodeId → Prop}
  {A A' : SiteId → Prop} {site : CallSite} {callee : FunctionDecl} {held : ClassEdges}
  {a b n d x y o src dst : NodeId}

/-! ## Adding a copy -/

/-- The state after a copy between two representatives was added. -/
def withCopy (s : Solver) (src dst : NodeId) : Solver :=
  { s with
    graph := { s.graph with copies := s.graph.copies.add src dst }
    edges :=
      if s.loaded.contains src then
        s.edges.insert src (s.edges.getD src {} ++ { copies := [(src, dst)] })
      else s.edges }

/-- **What adding a copy does**: nothing when it says nothing, is held or leaves the graph, and
otherwise the copy joins the graph and the list of the round. -/
theorem connectCopy_cases (s : Solver) (added : CopySet) (a b : NodeId) :
    (s.connectCopy added a b = (s, added) ∧
      (s.graph.hasNode (s.representative a) = true → s.graph.hasNode (s.representative b) = true →
        s.Same a b ∨ s.graph.hasEdge .copy (s.representative a) (s.representative b) = true)) ∨
    (s.graph.hasNode (s.representative a) = true ∧ s.graph.hasNode (s.representative b) = true ∧
      s.connectCopy added a b = (s.withCopy (s.representative a) (s.representative b),
        added.insert (s.representative a, s.representative b))) := by
  unfold connectCopy
  dsimp only
  rcases s.graph.addCopy_cases (s.representative a) (s.representative b) with
    ⟨heq, hheld⟩ | ⟨heq, ha, hb, -⟩
  · rw [heq]
    exact .inl ⟨rfl, hheld⟩
  · rw [heq]
    exact .inr ⟨ha, hb, rfl⟩

theorem edgesOf_withCopy (s : Solver) (src dst r : NodeId) :
    (s.withCopy src dst).edgesOf r =
      if r = src ∧ s.loaded.contains src = true then s.edgesOf r ++ { copies := [(src, dst)] }
      else s.edgesOf r := by
  unfold withCopy edgesOf
  by_cases hl : s.loaded.contains src = true
  · by_cases hr : r = src
    · simp [hl, hr]
    · simp [hl, hr, Std.ExtTreeMap.getD_insert, Ne.symm hr]
  · simp [hl]

theorem hasEdge_withCopy {k : ConstraintKind} :
    (s.withCopy src dst).graph.hasEdge k x y = true ↔
      (k = .copy ∧ x = src ∧ y = dst) ∨ s.graph.hasEdge k x y = true := by
  cases k <;> simp [withCopy, ConstraintGraph.hasEdge, ConstraintGraph.table,
    ConstraintGraph.oriented]

/-- Only the class of `src` gains a constraint, and only if `src` is loaded: the new copy. -/
theorem Kept.withCopy {α : Type} {part : ClassEdges.Part α} {done : α → Prop}
    (h : Kept part done s) (hsrc : s.representative src = src) (dst : NodeId) :
    Kept part done (s.withCopy src dst) := by
  refine ⟨fun {r e} he => ?_, fun {n e} hn he => ?_⟩
  · rw [edgesOf_withCopy] at he
    change ∃ n, s.loaded.contains n = true ∧ s.representative n = r ∧
      e ∈ part.read (ConstraintGraph.edgesAt { s.graph with copies := _ } n)
    simp only [ConstraintGraph.edgesAt_add_copy]
    by_cases hr : r = src ∧ s.loaded.contains src = true
    · rw [if_pos hr, part.mem_read_append] at he
      rcases he with he | he
      · obtain ⟨n, hn, hnr, hne⟩ := h.source he
        refine ⟨n, hn, hnr, ?_⟩
        split
        · exact part.mem_read_append.mpr (.inl hne)
        · exact hne
      · refine ⟨src, hr.2, hsrc.trans hr.1.symm, ?_⟩
        rw [if_pos rfl]
        exact part.mem_read_append.mpr (.inr he)
    · rw [if_neg hr] at he
      obtain ⟨n, hn, hnr, hne⟩ := h.source he
      refine ⟨n, hn, hnr, ?_⟩
      split
      · exact part.mem_read_append.mpr (.inl hne)
      · exact hne
  · change e ∈ part.read (ConstraintGraph.edgesAt { s.graph with copies := _ } n) at he
    change s.loaded.contains n = true at hn
    change e ∈ part.read ((s.withCopy src dst).edgesOf (s.representative n)) ∨ done e
    rw [ConstraintGraph.edgesAt_add_copy] at he
    rw [edgesOf_withCopy]
    by_cases hns : n = src
    · subst hns
      rw [if_pos rfl, part.mem_read_append] at he
      rw [if_pos ⟨hsrc, hn⟩, part.mem_read_append]
      rcases he with he | he
      · exact (h.kept hn he).imp_left .inl
      · exact .inl (.inr he)
    · rw [if_neg hns] at he
      refine (h.kept hn he).imp_left fun hw => ?_
      split
      · exact part.mem_read_append.mpr (.inl hw)
      · exact hw

/-- **Adding a copy keeps the state valid**: the new edge waits where its source is loaded. -/
theorem ValidBut.connectCopy (hv : s.ValidBut held) (added : CopySet) (a b : NodeId) :
    (s.connectCopy added a b).1.ValidBut held := by
  rcases s.connectCopy_cases added a b with ⟨heq, -⟩ | ⟨ha, hb, heq⟩
  · rw [heq]
    exact hv
  · rw [heq]
    have hsrc : s.representative (s.representative a) = s.representative a := hv.classes.find_find a
    refine ⟨hv.classes, hv.worklist, ?_, ?_⟩
    · refine ⟨fun k => ?_, fun {k x y} he => ?_⟩
      · have htable := hv.graph.table k
        cases k with
        | copy => exact htable.add _ _
        | addr | load | store | gep => exact htable
      · rcases hasEdge_withCopy.mp he with ⟨-, rfl, rfl⟩ | he
        · exact ⟨ha, hb⟩
        · exact hv.graph.ends he
    · exact ⟨hv.edges.copies.withCopy hsrc _, hv.edges.geps.withCopy hsrc _,
        hv.edges.loads.withCopy hsrc _, hv.edges.stores.withCopy hsrc _, hv.edges.loaded⟩

/-! ## Making memory -/

theorem nodeCount_createAllocation (s : Solver) (i : SiteId) :
    (s.createAllocation i).1.graph.nodeCount = s.graph.nodeCount + 2 := by
  simp [createAllocation, report, ConstraintGraph.addNode, ConstraintGraph.nodeCount]

theorem createAllocation_snd (s : Solver) (i : SiteId) :
    (s.createAllocation i).2 = ⟨s.graph.nodeCount, s.graph.nodeCount + 1⟩ := by
  simp [createAllocation, ConstraintGraph.addNode, ConstraintGraph.nodeCount]

/-- The kinds of the two fresh nodes; every other node keeps its own. -/
theorem kind?_createAllocation (s : Solver) (i : SiteId) (n : NodeId) :
    (s.createAllocation i).1.graph.kind? n =
      if n = s.graph.nodeCount then some .dummyValue
      else if n = s.graph.nodeCount + 1 then some .dummyObject else s.graph.kind? n := by
  change ((s.graph.kinds.push .dummyValue).push .dummyObject)[n]? = _
  rw [Array.getElem?_push, Array.getElem?_push, Array.size_push]
  by_cases hvalue : n = s.graph.nodeCount
  · have hobject : ¬ n = s.graph.kinds.size + 1 := fun h =>
      Nat.succ_ne_self s.graph.kinds.size (h.symm.trans hvalue)
    rw [if_pos hvalue, if_neg hobject]
    exact if_pos hvalue
  · rw [if_neg hvalue]
    exact if_congr Iff.rfl rfl (if_neg hvalue)

/-- Fresh nodes have no constraints. -/
theorem hasEdge_createAllocation (s : Solver) (i : SiteId) (k : ConstraintKind) (x y : NodeId) :
    (s.createAllocation i).1.graph.hasEdge k x y = s.graph.hasEdge k x y := by
  cases k <;> rfl

/-- The fresh object joins the set of the fresh value, and no other set changes. -/
theorem get_createAllocation (s : Solver) (i : SiteId) (r : NodeId) :
    (s.createAllocation i).1.store.get r =
      if r = s.graph.nodeCount then (s.store.get r).insert (s.graph.nodeCount + 1)
      else s.store.get r := by
  change (s.store.insert s.graph.nodeCount (s.graph.addNode .dummyValue).1.nodeCount).1.get r = _
  rw [ConstraintGraph.nodeCount_addNode, Store.get_insert]
  split
  · rename_i hr
    rw [hr]
  · rfl

theorem allocation?_createAllocation (s : Solver) (i j : SiteId) :
    (s.createAllocation i).1.allocation? j =
      if j = i then some (s.createAllocation i).2 else s.allocation? j := by
  change (s.allocations.insert i (s.createAllocation i).2)[j]? = _
  rw [Std.ExtTreeMap.getElem?_insert]
  by_cases hj : j = i
  · simp [hj]
  · simp [hj, Ne.symm hj, allocation?]

theorem ValidBut.createAllocation (hv : s.ValidBut held) (i : SiteId) :
    (s.createAllocation i).1.ValidBut held where
  classes := hv.classes
  worklist := hv.worklist
  graph := (hv.graph.addNode .dummyValue).addNode .dummyObject
  edges := ⟨⟨hv.edges.copies.source, hv.edges.copies.kept⟩,
    ⟨hv.edges.geps.source, hv.edges.geps.kept⟩, ⟨hv.edges.loads.source, hv.edges.loads.kept⟩,
    ⟨hv.edges.stores.source, hv.edges.stores.kept⟩, hv.edges.loaded⟩

/-! ## Moves -/

/-- One move: a report, a copy of a pair of `F`, or memory for a site of `A`, which flows into the
result of the call. -/
inductive Wire (F : NodeId → NodeId → Prop) (A : SiteId → Prop) :
    Solver × CopySet → Solver × CopySet → Prop
  | report {s : Solver} {added : CopySet} (e : Event) : Wire F A (s, added) (s.report e, added)
  | copy {s : Solver} {added : CopySet} {a b : NodeId} :
      F a b → Wire F A (s, added) (s.connectCopy added a b)
  | memory {s : Solver} {added : CopySet} {i : SiteId} {site : CallSite} {made : Allocation}
      {r : NodeId} : A i → s.sites[i]? = some site → site.ret = some r →
      s.allocation? i = some made → Wire F A (s, added) (s.connectCopy added made.value r)
  | allocate {s : Solver} {added : CopySet} {i : SiteId} {site : CallSite} : A i →
      s.sites[i]? = some site → s.allocation? i = none →
      Wire F A (s, added) ((s.createAllocation i).1, added)

/-- **Adding copies and memory**, one after the other. -/
abbrev Wiring (F : NodeId → NodeId → Prop) (A : SiteId → Prop) :
    Solver × CopySet → Solver × CopySet → Prop :=
  Relation.ReflTransGen (Wire F A)

/-- What every move keeps, a sequence of moves keeps. -/
theorem Wiring.keeps {I : Solver × CopySet → Prop} (h : Wiring F A u v)
    (hI : ∀ {u v}, Wire F A u v → I u → I v) (hu : I u) : I v := by
  induction h with
  | refl => exact hu
  | tail _ hstep ih => exact hI hstep ih

theorem Wire.mono (hF : ∀ a b, F a b → F' a b) (hA : ∀ i, A i → A' i)
    (h : Wire F A u v) : Wire F' A' u v := by
  cases h with
  | report e => exact .report e
  | copy hab => exact .copy (hF _ _ hab)
  | memory hi hs hr hm => exact .memory (hA _ hi) hs hr hm
  | allocate hi hs hm => exact .allocate (hA _ hi) hs hm

theorem Wiring.mono (hF : ∀ a b, F a b → F' a b) (hA : ∀ i, A i → A' i)
    (h : Wiring F A u v) : Wiring F' A' u v :=
  Relation.ReflTransGen.mono (fun _ _ => Wire.mono hF hA) _ _ h

/-- What connecting leaves alone: classes, worklist, calls and what was given. -/
structure WireFrame (s t : Solver) : Prop where
  settings : t.settings = s.settings
  outsideAddresses : t.outsideAddresses = s.outsideAddresses
  classes : t.classes = s.classes
  worklist : t.worklist = s.worklist
  seeded : t.seeded = s.seeded
  functions : t.functions = s.functions
  sites : t.sites = s.sites
  calls : t.calls = s.calls
  merges : t.counters.merges = s.counters.merges

theorem WireFrame.refl (s : Solver) : s.WireFrame s := ⟨rfl, rfl, rfl, rfl, rfl, rfl, rfl, rfl, rfl⟩

theorem WireFrame.connectCopy (s : Solver) (added : CopySet) (a b : NodeId) :
    s.WireFrame (s.connectCopy added a b).1 := by
  rcases s.connectCopy_cases added a b with ⟨heq, -⟩ | ⟨-, -, heq⟩
  · rw [heq]
    exact refl s
  · rw [heq]
    exact ⟨rfl, rfl, rfl, rfl, rfl, rfl, rfl, rfl, rfl⟩

theorem Wire.frame (h : Wire F A u v) : u.1.WireFrame v.1 := by
  cases h with
  | report e => exact ⟨rfl, rfl, rfl, rfl, rfl, rfl, rfl, rfl, rfl⟩
  | copy hab => exact .connectCopy ..
  | memory hi hs hr hm => exact .connectCopy ..
  | allocate hi hs hm => exact ⟨rfl, rfl, rfl, rfl, rfl, rfl, rfl, rfl, rfl⟩

theorem Wiring.frame (h : Wiring F A u v) : u.1.WireFrame v.1 := by
  refine h.keeps (I := fun v => u.1.WireFrame v.1) (fun hw ht => ?_) (.refl u.1)
  have hf := hw.frame
  exact ⟨hf.settings.trans ht.settings, hf.outsideAddresses.trans ht.outsideAddresses,
    hf.classes.trans ht.classes, hf.worklist.trans ht.worklist, hf.seeded.trans ht.seeded,
    hf.functions.trans ht.functions, hf.sites.trans ht.sites, hf.calls.trans ht.calls,
    hf.merges.trans ht.merges⟩

theorem ValidBut.wire (hv : u.1.ValidBut held) (h : Wire F A u v) : v.1.ValidBut held := by
  cases h with
  | report e => exact hv.congr rfl rfl rfl rfl rfl
  | copy hab => exact hv.connectCopy ..
  | memory hi hs hr hm => exact hv.connectCopy ..
  | allocate hi hs hm => exact hv.createAllocation _

theorem ValidBut.wiring (hv : u.1.ValidBut held) (h : Wiring F A u v) : v.1.ValidBut held :=
  h.keeps (I := fun v => v.1.ValidBut held) (fun hw ht => ht.wire hw) hv

/-! ## Where memory is made -/

theorem allocation?_connectCopy (s : Solver) (added : CopySet) (a b : NodeId) (i : SiteId) :
    (s.connectCopy added a b).1.allocation? i = s.allocation? i := by
  rcases s.connectCopy_cases added a b with ⟨heq, -⟩ | ⟨-, -, heq⟩
  · rw [heq]
  · rw [heq]
    rfl

theorem allocation?_wire {i : SiteId} {m : Allocation} (h : Wire F A u v)
    (hm : v.1.allocation? i = some m) :
    u.1.allocation? i = some m ∨ A i := by
  cases h with
  | report e => exact .inl hm
  | copy _ => exact .inl (allocation?_connectCopy _ _ _ _ i ▸ hm)
  | memory _ _ _ _ => exact .inl (allocation?_connectCopy _ _ _ _ i ▸ hm)
  | @allocate s added j site hj _ _ =>
    rw [allocation?_createAllocation] at hm
    by_cases hij : i = j
    · exact .inr (hij ▸ hj)
    · rw [if_neg hij] at hm
      exact .inl hm

theorem allocation?_wiring {i : SiteId} {m : Allocation} (h : Wiring F A u v)
    (hm : v.1.allocation? i = some m) :
    u.1.allocation? i = some m ∨ A i := by
  induction h with
  | refl => exact .inl hm
  | tail _ hw ih =>
    rcases allocation?_wire hw hm with hm | hi
    · exact ih hm
    · exact .inr hi

/-! ## The functions that connect -/

theorem wiring_connectCopies {pairs : List (NodeId × NodeId)} (h : ∀ e ∈ pairs, F e.1 e.2)
    (s : Solver) (added : CopySet) : Wiring F A (s, added) (s.connectCopies added pairs) := by
  induction pairs generalizing s added with
  | nil => exact .refl
  | cons e pairs ih =>
    have he : Wire F A (s, added) (s.connectCopy added e.1 e.2) := .copy (h e List.mem_cons_self)
    exact (Relation.ReflTransGen.single he).trans
      (ih (fun e he => h e (List.mem_cons_of_mem _ he)) _ _)

/-- Copies of any pairs, and no memory. -/
theorem wiring_copies (s : Solver) (added : CopySet) (pairs : List (NodeId × NodeId)) :
    Wiring (fun _ _ => True) (fun _ => False) (s, added) (s.connectCopies added pairs) :=
  wiring_connectCopies (fun _ _ => trivial) s added

/-- The memory of a site. It is there in either case, so what is left is one copy, if any. -/
theorem wiring_allocate (s : Solver) (added : CopySet) (i : SiteId) :
    Wiring F (· = i) (s, added) (s.allocate added i).1 := by
  unfold allocate
  cases hsite : s.sites[i]? with
  | none => exact .refl
  | some site =>
    have hcopies : ∀ (t : Solver) (made : Allocation), t.sites[i]? = some site →
        t.allocation? i = some made → Wiring F (· = i) (t, added)
          (t.connectCopies added (site.ret.toList.map (made.value, ·))) := by
      intro t made ht hmade
      cases hret : site.ret with
      | none => exact .refl
      | some r => exact .single (.memory rfl ht hret hmade)
    dsimp only
    cases hmade : s.allocation? i with
    | some made => exact hcopies s made hsite hmade
    | none =>
      have hcreate : Wire F (· = i) (s, added) ((s.createAllocation i).1, added) :=
        .allocate rfl hsite hmade
      refine (Relation.ReflTransGen.single hcreate).trans (hcopies _ _ hsite ?_)
      rw [allocation?_createAllocation, if_pos rfl]

theorem wiring_reportMissing (s : Solver) (added : CopySet) (site : CallSite)
    (callee : FunctionDecl) : Wiring F A (s, added) (s.reportMissing site callee, added) := by
  unfold reportMissing
  split
  · exact .single (.report _)
  · exact .refl

theorem wiring_connectSurplus (s : Solver) (added : CopySet) (site : CallSite)
    (callee : FunctionDecl) :
    Wiring (ParameterFlow s.settings site callee) A (s, added)
      (s.connectSurplus added site callee) := by
  unfold connectSurplus
  split
  · exact .refl
  · rename_i vararg hvararg _
    split
    · rename_i hsettings
      refine wiring_connectCopies (fun e he => ?_) s added
      obtain ⟨a, ha, rfl⟩ := List.mem_map.mp he
      obtain ⟨i, hi⟩ := List.mem_iff_getElem?.mp ha
      rw [surplusArgs, List.getElem?_drop] at hi
      exact .surplus hsettings (Nat.le_add_right _ i) hi hvararg
    · exact .single (.report _)
  · exact .single (.report _)

theorem flow_of_mem_resultCopies {settings : Settings} {e : NodeId × NodeId}
    (h : e ∈ resultCopies site callee) : ParameterFlow settings site callee e.1 e.2 := by
  obtain ⟨hcallee, hsite⟩ := List.of_mem_zip h
  exact .result (Option.mem_toList.mp hcallee) (Option.mem_toList.mp hsite)

theorem flow_of_mem_argumentCopies {settings : Settings} {e : NodeId × NodeId}
    (h : e ∈ argumentCopies site callee) : ParameterFlow settings site callee e.1 e.2 := by
  obtain ⟨i, hi⟩ := List.mem_iff_getElem?.mp h
  rw [argumentCopies, List.getElem?_zip_eq_some] at hi
  exact .argument hi.1 hi.2

/-- No stage changes the settings, which the last one asks for variadic nodes. -/
theorem wiring_connectParameters (s : Solver) (added : CopySet) (site : CallSite)
    (callee : FunctionDecl) :
    Wiring (ParameterFlow s.settings site callee) A (s, added)
      (s.connectParameters added site callee) := by
  have hresults : Wiring (ParameterFlow s.settings site callee) A (s, added)
      (s.connectCopies added (resultCopies site callee)) :=
    wiring_connectCopies (fun e he => flow_of_mem_resultCopies he) s added
  have harguments := (hresults.trans (wiring_reportMissing _ _ site callee)).trans
    (wiring_connectCopies (fun e he => flow_of_mem_argumentCopies he) _ _)
  refine harguments.trans ?_
  rw [← (Wiring.frame harguments).settings]
  exact wiring_connectSurplus ..

/-- Whether connecting a callee to a site makes memory. -/
def Allocates (settings : Settings) (callee : FunctionDecl) : Prop :=
  callee.isHeapAllocator = true ∧ settings.modelIndirectHeapAllocators = true

/-- **Connecting a callee of a call** adds the copies of its parameters, and memory if it allocates
some. Memory comes first, and if it cannot be made nothing else is connected. -/
theorem wiring_connectCall (s : Solver) (added : CopySet) (site : CallSite)
    (callee : FunctionDecl) :
    Wiring (ParameterFlow s.settings site callee)
      (fun i => i = site.id ∧ Allocates s.settings callee) (s, added)
      (s.connectCall added site callee).1 := by
  unfold connectCall
  split
  · rename_i halloc
    rw [Bool.and_eq_true] at halloc
    have hmemory := (wiring_allocate (F := ParameterFlow s.settings site callee) s added
      site.id).mono (fun _ _ => id) (fun i hi => (⟨hi, halloc⟩ : i = site.id ∧ _))
    cases hout : s.allocate added site.id with
    | mk reached outcome =>
      rw [hout] at hmemory
      cases outcome with
      | error e => exact hmemory
      | ok made =>
        have hparams := wiring_connectParameters
          (A := fun i => i = site.id ∧ Allocates s.settings callee) reached.1 reached.2 site callee
        rw [hmemory.frame.settings] at hparams
        exact hmemory.trans hparams
  · exact wiring_connectParameters s added site callee

/-- **Connecting a callee of a fork** adds at most one copy. -/
theorem wiring_connectFork (s : Solver) (added : CopySet) (site : CallSite)
    (callee : FunctionDecl) :
    Wiring (ForkFlow site callee) A (s, added) (s.connectFork added site callee) := by
  unfold connectFork
  split
  · rename_i actual formal hactual hformal
    refine .single (.copy ⟨?_, hformal⟩)
    unfold CallSite.forkArg at hactual
    split at hactual
    · exact hactual
    · cases hactual
  · exact .single (.report _)
  · exact .single (.report _)

/-- Connecting one callee, by the kind of the site. -/
def connectCallee (s : Solver) (added : CopySet) (site : CallSite) (callee : FunctionDecl) :
    Solver × CopySet :=
  if site.isFork then s.connectFork added site callee else (s.connectCall added site callee).1

/-- The sites that get memory when a callee is connected. -/
def MemorySite (settings : Settings) (site : CallSite) (callee : FunctionDecl) (i : SiteId) :
    Prop :=
  i = site.id ∧ site.kind = .call ∧ Allocates settings callee

/-- **Connecting a callee** adds copies of its flow, and memory if it allocates some. -/
theorem wiring_connectCallee (s : Solver) (added : CopySet) (site : CallSite)
    (callee : FunctionDecl) :
    Wiring (CallFlow s.settings site callee) (MemorySite s.settings site callee) (s, added)
      (s.connectCallee added site callee) := by
  unfold connectCallee
  cases hkind : site.kind with
  | call =>
    rw [if_neg (by simp [CallSite.isFork, hkind])]
    refine (wiring_connectCall s added site callee).mono (fun a b h => ?_) (fun i hi => ?_)
    · simpa only [CallFlow, hkind] using h
    · exact ⟨hi.1, hkind, hi.2⟩
  | fork =>
    rw [if_pos (by simp [CallSite.isFork, hkind])]
    refine (wiring_connectFork (A := MemorySite s.settings site callee) s added site callee).mono
      (fun a b h => ?_) (fun _ => id)
    simpa only [CallFlow, hkind] using h

/-! ## What is connected is listed -/

/-- Whatever happened to the class of `n` since `s` is on the list: a copy on it starts in the
class, or the class is as it was. -/
def Logged (s : Solver) (u : Solver × CopySet) (n : NodeId) : Prop :=
  (∃ e ∈ u.2, u.1.Same e.1 n) ∨ s.Unmoved u.1 n

theorem Logged.connectCopy (h : t.Logged (s, added) n) (hv : s.classes.Valid) (a b : NodeId) :
    t.Logged (s.connectCopy added a b) n := by
  rcases s.connectCopy_cases added a b with ⟨heq, -⟩ | ⟨-, -, heq⟩
  · rw [heq]
    exact h
  · rw [heq]
    have hsrc : s.representative (s.representative a) = s.representative a := hv.find_find a
    rcases h with ⟨e, he, hen⟩ | hmoved
    · refine .inl ⟨e, ?_, hen⟩
      rw [Std.ExtTreeSet.mem_insert]
      exact .inr he
    · by_cases hn : s.Same (s.representative a) n
      · refine .inl ⟨(s.representative a, s.representative b), ?_, hn⟩
        rw [Std.ExtTreeSet.mem_insert, Std.LawfulEqCmp.compare_eq_iff_eq]
        exact .inl rfl
      · refine .inr (hmoved.trans ⟨id, Nat.le_refl _, rfl, fun _ _ => Iff.rfl, ?_, rfl, ?_⟩)
        · rw [edgesOf_withCopy, if_neg fun hr => hn (hsrc.trans hr.1.symm)]
        · refine (s.graph.edgesAt_add_copy _ _ n).trans (if_neg ?_)
          rintro rfl
          exact hn (.refl s _)

/-- Fresh memory is in no class whose representative is in the graph. -/
theorem Unmoved.createAllocation (s : Solver) (i : SiteId) (n : NodeId) :
    s.Unmoved (s.createAllocation i).1 n := by
  refine ⟨id, ?_, rfl, fun hnode o => ?_, rfl, rfl, rfl⟩
  · rw [nodeCount_createAllocation]
    exact Nat.le_add_right _ 2
  · rw [ConstraintGraph.hasNode_iff] at hnode
    change o ∈ (s.createAllocation i).1.store.get (s.representative n) ↔ _
    rw [get_createAllocation, if_neg (Nat.ne_of_lt hnode)]
    exact Iff.rfl

/-- **What is connected is listed**: moves leave a class alone unless they list a copy that starts
in it. -/
theorem Logged.wiring (h : s.Logged u n) (hv : u.1.Valid) (hw : Wiring F A u v) :
    s.Logged v n := by
  refine (hw.keeps (I := fun v => v.1.Valid ∧ s.Logged v n) (fun hw hI => ?_) ⟨hv, h⟩).2
  obtain ⟨hv, h⟩ := hI
  refine ⟨hv.wire hw, ?_⟩
  cases hw with
  | report e => exact h.imp id fun hmoved => hmoved.trans (.aside _ n)
  | copy hab => exact h.connectCopy hv.classes ..
  | memory hi hs hr hm => exact h.connectCopy hv.classes ..
  | allocate hi hs hm => exact h.imp id fun hmoved => hmoved.trans (.createAllocation _ _ n)

end Solver

end PointsTo
