import PointsTo.Proofs.Solver.Growth

/-!
# Steps of the solver

Everything that can be done to a solver is a sequence of a few steps. A licence says which of the
steps that are not forced may be taken: operations by hand, copies, and memory. What every step
keeps holds after whatever is done; the decomposition of each function into steps is made once.

## Main definitions

* `Solver.Hand`: the operations by hand on single nodes
* `Solver.Connected`: a callee that is connected to a site
* `Licence`, `Licence.analysis`: which steps may be taken, and those that an analysis takes
* `Solver.Step`, `Solver.Steps`: one step, and sequences of steps
* `Solver.Coherent`: what holds of every state

## Main results

* `Step.grows`, `Steps.grows`: everything only adds
* `Coherent.step`, `Coherent.steps`: every step keeps a state coherent
* `Steps.keeps`: what every step keeps, sequences of steps keep
-/

namespace PointsTo

namespace Solver

/-- An operation by hand. -/
inductive Hand where
  /-- Adds an object to the set of a node. -/
  | addObject (n o : NodeId)
  /-- Adds objects to the set of a node. -/
  | addObjects (n : NodeId) (objects : IdSet)
  /-- Adds the set of one node to that of another. -/
  | addObjectsOf (n m : NodeId)
  /-- Merges a class into another one. -/
  | mergeInto (n m : NodeId)
  /-- Unifies two classes. -/
  | unify (a b : NodeId)
  /-- Records a node under another one. -/
  | subsume (n sub : NodeId)
  /-- Makes a class wait. -/
  | enqueue (n : NodeId)
  /-- Takes a waiting class. -/
  | dequeue

namespace Hand

/-- What an operation does. -/
def apply : Hand → Solver → Solver
  | addObject n o, s => (s.addObject n o).1
  | addObjects n objects, s => (s.addObjects n objects).1
  | addObjectsOf n m, s => (s.addObjectsOf n m).1
  | mergeInto n m, s => (s.mergeInto n m).1
  | unify a b, s => (s.unify a b).1
  | subsume n sub, s => s.subsume n sub
  | enqueue n, s => (s.enqueue n).1
  | dequeue, s => (s.dequeue?.map Prod.snd).getD s

/-- The nodes that an operation names. -/
def nodes : Hand → List NodeId
  | addObject n o => [n, o]
  | addObjects n objects => n :: objects.toList
  | addObjectsOf n m => [n, m]
  | mergeInto n m => [n, m]
  | unify a b => [a, b]
  | subsume n sub => [n, sub]
  | enqueue n => [n]
  | dequeue => []

end Hand

/-- A callee that is connected to a site, both being registered. -/
structure Connected (s : Solver) (site : CallSite) (callee : FunctionDecl) : Prop where
  registered : s.sites[site.id]? = some site
  declared : s.functions.get? callee.id = some callee
  edge : s.calls.hasEdge site.id callee.id = true

end Solver

/-- Which steps may be taken in a state. -/
structure Licence where
  /-- Operations by hand. -/
  hand : Solver → Solver.Hand → Prop
  /-- Copies. -/
  copy : Solver → NodeId → NodeId → Prop
  /-- Memory for a site. -/
  allocate : Solver → SiteId → Prop

namespace Licence

/-- **What an analysis does**: it copies along the flow of connected callees and makes memory for
their sites; nothing is done by hand. -/
def analysis : Licence where
  hand _ _ := False
  copy s a b := ∃ site callee, s.Connected site callee ∧ CallFlow s.settings site callee a b
  allocate s i := ∃ site callee, s.Connected site callee ∧
    Solver.MemorySite s.settings site callee i

/-- One licence allows all that another one does. -/
structure Le (L L' : Licence) : Prop where
  hand : ∀ {s op}, L.hand s op → L'.hand s op
  copy : ∀ {s a b}, L.copy s a b → L'.copy s a b
  allocate : ∀ {s i}, L.allocate s i → L'.allocate s i

instance : LE Licence := ⟨Le⟩

theorem le_refl (L : Licence) : L ≤ L := ⟨id, id, id⟩

end Licence

namespace Solver

variable {s t : Solver} {L : Licence} {site : CallSite} {callee : FunctionDecl} {n rep : NodeId}

theorem Connected.mono {site : CallSite} {callee : FunctionDecl} (h : s.Connected site callee)
    (hst : s.Grows t) : t.Connected site callee :=
  ⟨hst.sites ▸ h.registered, hst.functions ▸ h.declared, hst.calls h.edge⟩

/-- **One step.** -/
inductive Step (L : Licence) : Solver → Solver → Prop
  /-- Reports and counts, but of merges and of memory. -/
  | note {s : Solver} {counters : Counters} {journal : List Event} :
      counters.merges = s.counters.merges →
      counters.dummyObjects = s.counters.dummyObjects → Step L s { s with counters, journal }
  /-- An operation by hand. -/
  | hand {s : Solver} (op : Hand) : L.hand s op → Step L s (op.apply s)
  /-- An address edge. -/
  | address {s : Solver} {o p : NodeId} : (o, p) ∈ s.addressEdges → s.graph.hasNode o = true →
      s.graph.hasNode p = true → Step L s (s.seedEdge o p)
  /-- The address edges were all looked at. -/
  | seeded {s : Solver} : (∀ e ∈ s.addressEdges, e.1 ∈ s.pointsTo e.2) →
      Step L s { s with seeded := true }
  /-- A class of the graph waits. -/
  | wait {s : Solver} {n : NodeId} : s.graph.hasNode n = true → Step L s (s.enqueue n).1
  /-- A class is taken from those that wait. -/
  | pop {s t : Solver} {n : NodeId} : s.dequeue? = some (n, t) → Step L s t
  /-- A class is treated. -/
  | treat {s : Solver} {rep : NodeId} : s.representative rep = rep → Step L s (s.treat rep).1
  /-- A callee joins the call graph. -/
  | callee {s : Solver} {site : CallSite} {callee : FunctionDecl} : s.sites[site.id]? = some site →
      s.functions.get? callee.id = some callee → ¬ s.calls.hasEdge site.id callee.id = true →
      Step L s (s.addCallee site callee)
  /-- Copies and memory are added. -/
  | wiring {s t : Solver} {added added' : CopySet} {F : NodeId → NodeId → Prop}
      {A : SiteId → Prop} : Wiring F A (s, added) (t, added') → (∀ a b, F a b → L.copy s a b) →
      (∀ i, A i → L.allocate s i) → Step L s t
  /-- The sites move to their next states. -/
  | record {s : Solver} (connected : IdSet) :
      Step L s { s with calls := (s.calls.recordRound connected s.siteIds).1 }

/-- **Sequences of steps.** -/
abbrev Steps (L : Licence) : Solver → Solver → Prop := Relation.ReflTransGen (Step L)

/-! ## What every step keeps -/

/-- **What holds of every state**: it is valid and registered, and once the address edges were
looked at, each object is in the set of its pointer. -/
structure Coherent (s : Solver) : Prop where
  valid : s.Valid
  registered : s.Registered
  seeded : s.seeded = true → ∀ e ∈ s.addressEdges, e.1 ∈ s.pointsTo e.2

/-- Taking a waiting class changes the worklist alone; from an empty one nothing is taken. -/
theorem Hand.apply_dequeue (s : Solver) :
    ∃ worklist, Hand.dequeue.apply s = { s with worklist } := by
  change ∃ worklist, (s.dequeue?.map Prod.snd).getD s = { s with worklist }
  cases hd : s.dequeue? with
  | none => exact ⟨s.worklist, rfl⟩
  | some popped =>
    obtain ⟨m, w, -, -, ht⟩ := dequeue?_cases hd
    exact ⟨w, ht⟩

theorem Hand.grows (hv : s.Valid) (op : Hand) : s.Grows (op.apply s) := by
  cases op with
  | addObject n o => exact .addObject s n o
  | addObjects n objects => exact .addObjects s n objects
  | addObjectsOf n m => exact .addObjectsOf s n m
  | mergeInto n m => exact .mergeInto hv.classes n m
  | unify a b => exact .unify hv.classes a b
  | subsume n sub =>
    exact ⟨rfl, rfl, rfl, rfl, rfl, fun _ => rfl, id, Nat.le_refl _, id, id, id, id, id, id⟩
  | enqueue n => exact .enqueue s n
  | dequeue =>
    obtain ⟨w, heq⟩ := Hand.apply_dequeue s
    rw [heq]
    exact .aside s

/-- No operation by hand touches the graph or the calls. -/
theorem Hand.frame (s : Solver) (op : Hand) : s.Frame (op.apply s) := by
  cases op with
  | mergeInto n m =>
    change s.Frame (s.mergeInto n m).1
    rcases s.mergeInto_cases n m with ⟨-, heq⟩ | ⟨-, heq⟩
    · rw [heq]
      exact .refl s
    · rw [heq]
      exact .join s _ _
  | unify a b => exact .unify s a b
  | dequeue =>
    obtain ⟨w, heq⟩ := Hand.apply_dequeue s
    rw [heq]
    exact ⟨rfl, rfl, rfl, rfl, rfl, rfl, rfl, rfl, rfl, rfl, rfl⟩
  | _ => exact ⟨rfl, rfl, rfl, rfl, rfl, rfl, rfl, rfl, rfl, rfl, rfl⟩

theorem Hand.valid (hv : s.Valid) (op : Hand) : (op.apply s).Valid := by
  cases op with
  | addObject n o => exact hv.congr rfl rfl rfl rfl rfl
  | addObjects n objects => exact hv.congr rfl rfl rfl rfl rfl
  | addObjectsOf n m => exact hv.congr rfl rfl rfl rfl rfl
  | mergeInto n m => exact hv.mergeInto n m
  | unify a b => exact hv.unify a b
  | subsume n sub => exact hv.subsume n sub
  | enqueue n => exact hv.enqueue n
  | dequeue =>
    change ((s.dequeue?.map Prod.snd).getD s).Valid
    cases hd : s.dequeue? with
    | none => exact hv
    | some popped => exact hv.dequeue? hd

/-- **Every step only adds.** -/
theorem Step.grows (hv : s.Valid) (hc : s.calls.Valid) (h : Step L s t) : s.Grows t := by
  cases h with
  | note _ => exact .aside s
  | hand op _ => exact op.grows hv
  | @address o p _ _ _ =>
    exact (Grows.aside s).trans ((Grows.addObject _ p o).trans (.enqueue _ p))
  | seeded _ => exact .aside s
  | wait _ => exact .enqueue s _
  | pop hd =>
    obtain ⟨m, w, -, -, rfl⟩ := dequeue?_cases hd
    exact .aside s
  | treat hr => exact .treat hv hr
  | callee _ _ _ => exact .addCallee hc _ _
  | wiring hw _ _ => exact .wiring hw
  | record connected => exact .recordRound s connected

theorem ValidBut.step (hv : s.Valid) (h : Step L s t) : t.Valid := by
  cases h with
  | note _ => exact hv.congr rfl rfl rfl rfl rfl
  | hand op _ => exact op.valid hv
  | @address o p _ _ _ =>
    have hadded : (s.addObject p o).1.Valid := hv.congr rfl rfl rfl rfl rfl
    exact (hadded.enqueue p).congr rfl rfl rfl rfl rfl
  | seeded _ => exact hv.congr rfl rfl rfl rfl rfl
  | wait _ => exact hv.enqueue _
  | pop hd => exact hv.dequeue? hd
  | treat hr => exact hv.treat hr
  | callee _ _ _ => exact hv.congr rfl rfl rfl rfl rfl
  | wiring hw _ _ => exact hv.wiring hw
  | record connected => exact hv.congr rfl rfl rfl rfl rfl

theorem calls_valid_step (hv : s.Valid) (hc : s.calls.Valid) (h : Step L s t) : t.calls.Valid := by
  cases h with
  | note _ => exact hc
  | hand op _ => rw [(op.frame s).calls]; exact hc
  | address _ _ _ => exact hc
  | seeded _ => exact hc
  | wait _ => exact hc
  | pop hd =>
    obtain ⟨m, w, -, -, rfl⟩ := dequeue?_cases hd
    exact hc
  | treat hr => rw [(Frame.treat hv hr).calls]; exact hc
  | callee _ _ _ => exact hc.insert _ _
  | wiring hw _ _ => rw [hw.frame.calls]; exact hc
  | record connected => exact hc.recordRound connected s.siteIds

/-- The mark that the address edges were looked at is only set when it is due. -/
theorem seeded_step (hv : s.Valid) (h : Step L s t) (ht : t.seeded = true) :
    s.seeded = true ∨ ∀ e ∈ s.addressEdges, e.1 ∈ s.pointsTo e.2 := by
  cases h with
  | note _ => exact .inl ht
  | hand op _ => exact .inl ((op.frame s).seeded ▸ ht)
  | address _ _ _ => exact .inl ht
  | seeded hall => exact .inr hall
  | wait _ => exact .inl ht
  | pop hd =>
    obtain ⟨m, w, -, -, rfl⟩ := dequeue?_cases hd
    exact .inl ht
  | treat hr => exact .inl ((Frame.treat hv hr).seeded ▸ ht)
  | callee _ _ _ => exact .inl ht
  | wiring hw _ _ => exact .inl (hw.frame.seeded ▸ ht)
  | record connected => exact .inl ht

/-- **Every step keeps a state coherent.** -/
theorem Coherent.step (hs : s.Coherent) (h : Step L s t) : t.Coherent := by
  have hgrows := h.grows hs.valid hs.registered.calls
  refine ⟨hs.valid.step h, ?_, fun ht e he => ?_⟩
  · exact hs.registered.mono hgrows.sites hgrows.functions
      (calls_valid_step hs.valid hs.registered.calls h) hgrows.nodeCount
  · rw [hgrows.addressEdges] at he
    rcases seeded_step hs.valid h ht with hseeded | hall
    · exact hgrows.pointsTo (hs.seeded hseeded e he)
    · exact hgrows.pointsTo (hall e he)

theorem Coherent.steps (hs : s.Coherent) (h : Steps L s t) : t.Coherent := by
  induction h with
  | refl => exact hs
  | tail _ hstep ih => exact ih.step hstep

theorem Coherent.report (hs : s.Coherent) (e : Event) : (s.report e).Coherent :=
  hs.step (L := .analysis) (.note rfl rfl)

/-- What every step from a coherent state keeps, sequences of steps keep. -/
theorem Steps.keeps {I : Solver → Prop} (hs : s.Coherent) (h : Steps L s t)
    (hI : ∀ {s t}, s.Coherent → Step L s t → I s → I t) (hI₀ : I s) : I t := by
  induction h with
  | refl => exact hI₀
  | tail hst hstep ih => exact hI (hs.steps hst) hstep ih

/-- **Everything only adds.** -/
theorem Steps.grows (hs : s.Coherent) (h : Steps L s t) : s.Grows t := by
  induction h with
  | refl => exact .refl s
  | tail hst hstep ih =>
    have ht := hs.steps hst
    exact ih.trans (hstep.grows ht.valid ht.registered.calls)

end Solver

end PointsTo
