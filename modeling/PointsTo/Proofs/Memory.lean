import PointsTo.Proofs.Ledger
import PointsTo.Proofs.Placement

/-!
# The memory of a site

A site gets its memory once: two fresh nodes, a value and the object that it points to. Whatever is
done later, the site keeps this memory, no other site shares it, and the graph has two nodes more
for every piece of memory that was made.

The object is put into the set of the value without a look at its class. Nodes may be merged by hand
before the graph has them, so that a fresh value may have been merged away already. Then the object
is shelved: it lies at the value, and the set of its class does not show it. This is the only
exception, and none arises when the classes that are merged by hand are classes of the graph.

## Main definitions

* `Solver.Stocked`: what holds of all memory made so far
* `Solver.Provides`: what a site gets when it asks for memory, now and later
* `Operation.MergesWithin`: classes that are merged by hand are classes of the graph

## Main results

* `Stocked.step`: every step keeps the stock in order
* `allocate_first`, `allocate_again`: what asking for memory gives
* `provides_of_reachable`: the memory of sites after any history
* `merged_memory_hidden`: a value that was merged before it was made does not show its object
-/

namespace PointsTo

/-- The two nodes of a piece of memory. -/
def Allocation.nodes (d : Allocation) : List NodeId := [d.value, d.object]

namespace Solver

variable {base : Nat} {s t : Solver} {L : Licence} {F : NodeId → NodeId → Prop} {A : SiteId → Prop}
  {u v : Solver × CopySet} {i : SiteId} {site : CallSite} {d : Allocation}

/-! ## The stock -/

/-- **What holds of all memory made so far**, when the graph had `base` nodes at first. -/
structure Stocked (base : Nat) (s : Solver) : Prop where
  /-- Each piece of memory has added two nodes. -/
  counted : s.graph.nodeCount = base + 2 * s.counters.dummyObjects
  /-- Sites that have memory are registered. -/
  registered : ∀ {i d}, s.allocation? i = some d → ∃ site, s.sites[i]? = some site
  /-- The nodes are of the kinds made for memory. -/
  kinds : ∀ {i d}, s.allocation? i = some d →
    s.graph.kind? d.value = some .dummyValue ∧ s.graph.kind? d.object = some .dummyObject
  /-- Different sites share no node. -/
  apart : ∀ {i j d e}, s.allocation? i = some d → s.allocation? j = some e → i ≠ j →
    d.nodes.Disjoint e.nodes
  /-- The value points to its object, or was merged away before it was made. -/
  lodged : ∀ {i d}, s.allocation? i = some d →
    d.object ∈ s.pointsTo d.value ∨ s.Shelved d.value d.object

namespace Stocked

/-- Memory lies in the graph. -/
theorem lt_nodeCount (h : s.Stocked base) (hd : s.allocation? i = some d) {n : NodeId}
    (hn : n ∈ d.nodes) : n < s.graph.nodeCount := by
  obtain ⟨hvalue, hobject⟩ := h.kinds hd
  rcases List.mem_pair.mp hn with rfl | rfl
  · exact (Array.getElem?_eq_some_iff.mp hvalue).1
  · exact (Array.getElem?_eq_some_iff.mp hobject).1

/-- What makes no memory keeps the stock in order, as long as nothing is lost. -/
theorem grows (h : s.Stocked base) (hst : s.Grows t) (hmade : t.allocations = s.allocations)
    (hnodes : t.graph.nodeCount = s.graph.nodeCount)
    (hdummies : t.counters.dummyObjects = s.counters.dummyObjects) : t.Stocked base := by
  have hkept : ∀ {i d}, t.allocation? i = some d → s.allocation? i = some d := by
    intro i d hd
    rwa [allocation?, hmade] at hd
  refine ⟨?_, fun hd => ?_, fun hd => ?_, fun hd he => h.apart (hkept hd) (hkept he), fun hd => ?_⟩
  · rw [hnodes, hdummies]
    exact h.counted
  · rw [hst.sites]
    exact h.registered (hkept hd)
  · exact (h.kinds (hkept hd)).imp hst.kinds hst.kinds
  · exact (h.lodged (hkept hd)).imp hst.pointsTo hst.shelved

/-- **Fresh memory keeps the stock in order.** Its nodes are beyond those of all other memory. -/
theorem createAllocation (h : s.Stocked base) (hsite : s.sites[i]? = some site)
    (hnone : s.allocation? i = none) : (s.createAllocation i).1.Stocked base := by
  have hst : s.Grows (s.createAllocation i).1 := .createAllocation hnone
  have hcases : ∀ {j d}, (s.createAllocation i).1.allocation? j = some d →
      (j = i ∧ d = ⟨s.graph.nodeCount, s.graph.nodeCount + 1⟩) ∨
        (j ≠ i ∧ s.allocation? j = some d) := by
    intro j d hd
    rw [allocation?_createAllocation, createAllocation_snd] at hd
    split at hd
    · exact .inl ⟨‹_›, (Option.some.inj hd).symm⟩
    · exact .inr ⟨‹_›, hd⟩
  have hfresh : ∀ {j e}, s.allocation? j = some e →
      ([s.graph.nodeCount, s.graph.nodeCount + 1] : List NodeId).Disjoint e.nodes := by
    intro j e he n hn hmem
    have hlt := h.lt_nodeCount he hmem
    rcases List.mem_pair.mp hn with rfl | rfl
    · exact Nat.lt_irrefl _ hlt
    · exact Nat.not_succ_lt_self hlt
  refine ⟨?_, fun {j d} hd => ?_, fun {j d} hd => ?_, fun {j k d e} hd he hne => ?_,
    fun {j d} hd => ?_⟩
  · rw [nodeCount_createAllocation, h.counted]
    change _ = base + 2 * (s.counters.dummyObjects + 1)
    omega
  · rw [hst.sites]
    rcases hcases hd with ⟨rfl, -⟩ | ⟨-, hd⟩
    · exact ⟨site, hsite⟩
    · exact h.registered hd
  · rcases hcases hd with ⟨rfl, rfl⟩ | ⟨-, hd⟩
    · refine ⟨?_, ?_⟩
      · rw [kind?_createAllocation, if_pos rfl]
      · rw [kind?_createAllocation, if_neg (Nat.succ_ne_self _), if_pos rfl]
    · exact (h.kinds hd).imp hst.kinds hst.kinds
  · rcases hcases hd with ⟨rfl, rfl⟩ | ⟨-, hold⟩ <;> rcases hcases he with ⟨rfl, rfl⟩ | ⟨-, hold'⟩
    · exact absurd rfl hne
    · exact hfresh hold'
    · exact (hfresh hold).symm
    · exact h.apart hold hold' hne
  · rcases hcases hd with ⟨rfl, rfl⟩ | ⟨-, hd⟩
    · have hput : s.graph.nodeCount + 1 ∈ (s.createAllocation j).1.store.get s.graph.nodeCount := by
        rw [get_createAllocation, if_pos rfl]
        exact (IdSet.mem_insert ..).mpr (.inl rfl)
      by_cases hrep : s.representative s.graph.nodeCount = s.graph.nodeCount
      · left
        change _ ∈ (s.createAllocation j).1.store.get (s.representative s.graph.nodeCount)
        rwa [hrep]
      · exact .inr ⟨hput, hrep⟩
    · exact (h.lodged hd).imp hst.pointsTo hst.shelved

theorem connectCopy (h : s.Stocked base) (added : CopySet) (a b : NodeId) :
    (s.connectCopy added a b).1.Stocked base := by
  refine h.grows (.connectCopy s added a b) ?_ ?_ ?_ <;>
    rcases s.connectCopy_cases added a b with ⟨heq, -⟩ | ⟨-, -, heq⟩ <;> rw [heq] <;> rfl

theorem wiring (h : u.1.Stocked base) (hw : Wiring F A u v) : v.1.Stocked base := by
  refine hw.keeps (I := fun v => v.1.Stocked base) (fun hw hv => ?_) h
  cases hw with
  | report _ => exact hv.grows (.aside _) rfl rfl rfl
  | copy _ => exact hv.connectCopy ..
  | memory _ _ _ _ => exact hv.connectCopy ..
  | allocate _ hsite hnone => exact hv.createAllocation hsite hnone

/-- **Every step keeps the stock in order.** -/
theorem step (h : s.Stocked base) (hs : s.Coherent) (hstep : Step L s t) : t.Stocked base := by
  have hgrows := hstep.grows hs.valid hs.registered.calls
  cases hstep with
  | note _ hdummies => exact h.grows hgrows rfl rfl hdummies
  | hand op _ =>
    have hframe := op.frame s
    exact h.grows hgrows hframe.allocations (by rw [hframe.graph]) hframe.dummies
  | treat hrep =>
    have hframe := Frame.treat hs.valid hrep
    exact h.grows hgrows hframe.allocations (by rw [hframe.graph]) hframe.dummies
  | wiring hw _ _ => exact wiring (u := (s, _)) h hw
  | pop hd =>
    obtain ⟨_, _, -, -, rfl⟩ := dequeue?_cases hd
    exact h.grows hgrows rfl rfl rfl
  | address _ _ _ | seeded _ | wait _ | callee _ _ _ | record _ => exact h.grows hgrows rfl rfl rfl

/-- Where sets are held at representatives nothing is shelved. -/
theorem visible (h : s.Stocked base) (hseated : s.Seated) (hd : s.allocation? i = some d) :
    d.object ∈ s.pointsTo d.value :=
  (h.lodged hd).resolve_right fun hshelved => hshelved.2 (hseated.sets hshelved.1)

end Stocked

/-! ## Asking for memory -/

/-- Copies do not touch sets. -/
theorem store_connectCopies (s : Solver) (added : CopySet) (pairs : List (NodeId × NodeId)) :
    (s.connectCopies added pairs).1.store = s.store := by
  refine (wiring_copies s added pairs).keeps (I := fun v => v.1.store = s.store)
    (fun hw hv => ?_) rfl
  cases hw with
  | report _ => exact hv
  | @copy t added a b _ =>
    rcases t.connectCopy_cases added a b with ⟨heq, -⟩ | ⟨-, -, heq⟩
    · rwa [heq]
    · rwa [heq]
  | memory hi => exact hi.elim
  | allocate hi => exact hi.elim

theorem nodeCount_connectCopies (s : Solver) (added : CopySet) (pairs : List (NodeId × NodeId)) :
    (s.connectCopies added pairs).1.graph.nodeCount = s.graph.nodeCount :=
  congrArg Ledger.nodes (ledger_wiring (wiring_copies s added pairs))

/-- **A site that has memory is given it again**, and no node is added. -/
theorem allocate_again (hsite : s.sites[i]? = some site) (hd : s.allocation? i = some d)
    (added : CopySet) :
    (s.allocate added i).2 = .ok d ∧
      (s.allocate added i).1.1.graph.nodeCount = s.graph.nodeCount := by
  simp only [allocate, hsite, hd]
  exact ⟨trivial, nodeCount_connectCopies ..⟩

/-- **A site without memory is given the next two nodes of the graph.** The value shows its object
if it represents its class, or if the set of the class had the object before. Copies touch neither
classes nor sets, so the fresh object is the only change. -/
theorem allocate_first (hsite : s.sites[i]? = some site) (hnone : s.allocation? i = none)
    (added : CopySet) :
    (s.allocate added i).2 = .ok ⟨s.graph.nodeCount, s.graph.nodeCount + 1⟩ ∧
      (s.allocate added i).1.1.allocation? i =
        some ⟨s.graph.nodeCount, s.graph.nodeCount + 1⟩ ∧
      (s.graph.nodeCount + 1 ∈ (s.allocate added i).1.1.pointsTo s.graph.nodeCount ↔
        s.representative s.graph.nodeCount = s.graph.nodeCount ∨
          s.graph.nodeCount + 1 ∈ s.pointsTo s.graph.nodeCount) := by
  simp only [allocate, hsite, hnone, createAllocation_snd]
  generalize hpairs : site.ret.toList.map (s.graph.nodeCount, ·) = pairs
  have hw := wiring_copies (s.createAllocation i).1 added pairs
  refine ⟨trivial, ?_, ?_⟩
  · refine (Grows.wiring hw).allocations ?_
    rw [allocation?_createAllocation, if_pos rfl, createAllocation_snd]
  · have hrep : ∀ n, ((s.createAllocation i).1.connectCopies added pairs).1.representative n =
        s.representative n := representative_congr hw.frame.classes
    rw [mem_pointsTo, hrep, store_connectCopies, get_createAllocation, mem_pointsTo]
    by_cases hself : s.representative s.graph.nodeCount = s.graph.nodeCount
    · simp [hself]
    · simp [hself]

end Solver

open Solver

/-! ## Histories -/

/-- **An operation merges within the graph** when the classes that it merges by hand are classes of
nodes of the graph. Everything else may be named at will. -/
def Operation.MergesWithin (s : Solver) : Operation → Prop
  | .hand op => ∀ n ∈ op.merges, s.graph.hasNode n = true
  | _ => True

theorem Operation.Proper.mergesWithin {s : Solver} {op : Operation} (h : op.Proper s) :
    op.MergesWithin s := by
  cases op with
  | hand op => exact fun n hn => h.1 n (Hand.mem_places_of_mem_merges hn)
  | _ => trivial

variable {p : Problem} {s : Solver} {scope : Scope}

theorem stocked_ofProblem (h : ofProblem p = .ok s) : s.Stocked p.graph.nodeCount := by
  have hnone : ∀ {i d}, ¬ s.allocation? i = some d := by
    intro i d hd
    cases (allocation?_ofProblem h).symm.trans hd
  refine ⟨?_, fun hd => absurd hd hnone, fun hd => absurd hd hnone,
    fun hd => absurd hd hnone, fun hd => absurd hd hnone⟩
  obtain ⟨-, -, rfl⟩ := ofProblem_eq_ok h
  rfl

/-- **The stock is in order after any history.** -/
theorem Reachable.stocked (hp : p.Made) (h : Reachable scope p s) :
    s.Stocked p.graph.nodeCount :=
  h.keeps hp stocked_ofProblem fun hs hsteps hstocked =>
    hsteps.keeps hs (fun hs hstep h => h.step hs hstep) hstocked

theorem Governed.seated_of_mergesWithin (hp : p.Made)
    (h : Governed Operation.MergesWithin p s) : s.Seated :=
  h.keeps hp (Licence.analysis_le_following _) Operation.licensed_following seated_ofProblem
    fun hs hstep hseated => hseated.step hs.valid (fun hop => hop) hstep

/-- **What a site gets when it asks for memory**, in a state whose graph had `base` nodes at first,
and in all states that follow. -/
structure Solver.Provides (base : Nat) (s : Solver) : Prop where
  stocked : s.Stocked base
  /-- A site that has memory is given it whenever it asks, no node is added for it, and an object
  that shows goes on to show. -/
  again : ∀ {i d}, s.allocation? i = some d → ∀ ops added,
    ((s.after ops).allocate added i).2 = .ok d ∧
      ((s.after ops).allocate added i).1.1.graph.nodeCount = (s.after ops).graph.nodeCount ∧
      (d.object ∈ s.pointsTo d.value → d.object ∈ (s.after ops).pointsTo d.value)
  /-- A registered site without memory is given the next two nodes. The object shows exactly if the
  value represents its class or the set of the class had the object before. -/
  first : ∀ {i site}, s.sites[i]? = some site → s.allocation? i = none → ∀ added,
    (s.allocate added i).2 = .ok ⟨s.graph.nodeCount, s.graph.nodeCount + 1⟩ ∧
      (s.allocate added i).1.1.allocation? i =
        some ⟨s.graph.nodeCount, s.graph.nodeCount + 1⟩ ∧
      (s.graph.nodeCount + 1 ∈ (s.allocate added i).1.1.pointsTo s.graph.nodeCount ↔
        s.representative s.graph.nodeCount = s.graph.nodeCount ∨
          s.graph.nodeCount + 1 ∈ s.pointsTo s.graph.nodeCount)

/-- **One piece of memory for each site.** After any history the memory made so far is in order, and
a site that has memory keeps it. As long as the classes that are merged by hand are classes of the
graph, every value points to its object. -/
theorem provides_of_reachable (hp : p.Made) (h : Reachable .any p s) :
    s.Provides p.graph.nodeCount ∧
      (Governed Operation.MergesWithin p s →
        ∀ {i d}, s.allocation? i = some d → d.object ∈ s.pointsTo d.value) := by
  have hcoherent := h.coherent hp
  have hstocked := h.stocked hp
  refine ⟨⟨hstocked, fun {i d} hd ops added => ?_, fun hsite hnone added => ?_⟩,
    fun hgoverned _ _ hd => hstocked.visible (hgoverned.seated_of_mergesWithin hp) hd⟩
  · have hgrows := (hcoherent.steps_after ops).grows hcoherent
    obtain ⟨site, hsite⟩ := hstocked.registered hd
    rw [← hgrows.sites] at hsite
    obtain ⟨hgiven, hnodes⟩ := allocate_again hsite (hgrows.allocations hd) added
    exact ⟨hgiven, hnodes, hgrows.pointsTo⟩
  · exact allocate_first hsite hnone added

/-- Site 0 of the sample asks for memory. -/
def sampleStocked : Solver := sampleHistory.after [.allocate ∅ 0]

theorem provides_sampleStocked :
    sampleStocked.allocation? 0 = some ⟨12, 13⟩ ∧ sampleStocked.Provides 12 ∧
      13 ∈ sampleStocked.pointsTo 12 := by
  have hmade : sampleStocked.allocation? 0 = some ⟨12, 13⟩ := by decide +kernel
  have hgoverned : Governed Operation.MergesWithin sampleProblem sampleStocked :=
    .apply (.allocate ∅ 0) (governed_sampleHistory.mono fun hop => hop.mergesWithin) trivial
  obtain ⟨hprovides, hvisible⟩ := provides_of_reachable sampleProblem_made
    (reachable_sampleHistory.after [.allocate ∅ 0])
  exact ⟨hmade, hprovides, hvisible hgoverned hmade⟩

/-- Two nodes and a site. -/
def hiddenProblem : Problem where
  graph := .ofKinds [.value, .value]
  sites := [{ id := 10, kind := .call, funPtr := 0, args := [] }]

/-- **A value that was merged before it was made does not show its object**: 2 is merged into the
class of 0 when the graph has two nodes, and then becomes the value of fresh memory. -/
theorem merged_memory_hidden :
    ∃ start, ofProblem hiddenProblem = .ok start ∧
      ((start.after [.hand (.mergeInto 2 0)]).allocate ∅ 10).2 = .ok ⟨2, 3⟩ ∧
      ((start.after [.hand (.mergeInto 2 0)]).allocate ∅ 10).1.1.pointsTo 2 = ∅ := by
  refine ⟨_, rfl, ?_, ?_⟩ <;> decide +kernel

end PointsTo
