import PointsTo.Proofs.Reachable

/-!
# States that keep to their graph

Operations by hand may name nodes that the graph does not have, and such nodes may then be merged,
pointed to or made to wait. As long as they do not, no class, no set and no waiting class leaves the
graph; then nothing fails for want of a node, and fresh memory belongs to no class but its own.

## Main definitions

* `Licence.Bounded`: operations by hand name nodes of the graph
* `Solver.Grounded`: merged nodes lie in the graph
* `Solver.Contained`: classes, sets, waiting classes and memory lie in the graph
* `Problem.Contained`: so do the sets that an analysis starts from
* `Problem.Plain`: a graph, functions, sites and settings, and nothing else

## Main results

* `Joinable.holds_join`: what holds of merged nodes and of the two that are merged now
* `Contained.steps`: steps within the graph keep a state contained
* `Reachable.contained`: so do operations that name nodes of the graph
-/

namespace PointsTo

/-- Operations by hand name nodes of the graph. -/
def Licence.Bounded (L : Licence) : Prop :=
  ∀ {s op}, L.hand s op → ∀ n ∈ op.nodes, s.graph.hasNode n = true

theorem Licence.bounded_analysis : Licence.analysis.Bounded := fun h => h.elim

theorem Licence.bounded_within_known : (Licence.within .known).Bounded := fun h => h

/-! ## Objects of a store -/

namespace Store

variable {sets : Store} {P : NodeId → Prop} {o x r : NodeId}

theorem forall_mem_insert (h : ∀ {r o}, o ∈ sets.get r → P o) (ho : P o) (n : NodeId)
    (hx : x ∈ (sets.insert n o).1.get r) : P x := by
  rw [get_insert] at hx
  split at hx
  · rcases (IdSet.mem_insert ..).mp hx with rfl | hx
    · exact ho
    · exact h hx
  · exact h hx

theorem forall_mem_union (h : ∀ {r o}, o ∈ sets.get r → P o) {objects : IdSet}
    (ho : ∀ o ∈ objects, P o) (n : NodeId) (hx : x ∈ (sets.union n objects).1.get r) : P x := by
  rw [get_union] at hx
  split at hx
  · exact ((IdSet.mem_union ..).mp hx).elim h (ho x)
  · exact h hx

theorem forall_mem_unionFrom (h : ∀ {r o}, o ∈ sets.get r → P o) (n m : NodeId)
    (hx : x ∈ (sets.unionFrom n m).1.get r) : P x := by
  rw [get_unionFrom] at hx
  split at hx
  · exact ((IdSet.mem_union ..).mp hx).elim h h
  · exact h hx

end Store

namespace Solver

variable {s t : Solver} {L : Licence} {F : NodeId → NodeId → Prop} {A : SiteId → Prop}
  {u v : Solver × CopySet} {held : ClassEdges} {P : NodeId → Prop}
  {n m o a b x r rep lost survivor : NodeId}

/-- A merge brings no object that was in no set. -/
theorem forall_mem_join (hj : s.Joinable a b lost survivor)
    (h : ∀ {r o}, o ∈ s.store.get r → P o) (hx : x ∈ (s.join lost survivor).store.get r) : P x := by
  rw [mem_get_join s hj.ne] at hx
  split at hx
  · exact hx.elim h h
  · exact h hx.2

/-! ## Nodes and representatives -/

section Merged

variable (h : ∀ {n}, s.representative n ≠ n → P n ∧ P (s.representative n))
include h

/-- What holds of merged nodes and of their representatives passes from any node to its
representative. -/
theorem holds_representative (hn : P n) : P (s.representative n) := by
  by_cases heq : s.representative n = n
  · rwa [heq]
  · exact (h heq).2

theorem Joinable.holds (hj : s.Joinable a b lost survivor) (ha : P a) (hb : P b) :
    P lost ∧ P survivor := by
  rcases hj.pair with ⟨rfl, rfl⟩ | ⟨rfl, rfl⟩
  · exact ⟨holds_representative h ha, holds_representative h hb⟩
  · exact ⟨holds_representative h hb, holds_representative h ha⟩

/-- What holds of the two nodes as well holds of all that are merged then. A node of the absorbed
class is its representative or was merged before. -/
theorem Joinable.holds_join (hj : s.Joinable a b lost survivor) (hv : s.classes.Valid) (ha : P a)
    (hb : P b) (hne : (s.join lost survivor).representative n ≠ n) :
    P n ∧ P ((s.join lost survivor).representative n) := by
  have hnodes := hj.holds h ha hb
  rw [representative_join hv (hj.lost_eq hv)] at hne ⊢
  by_cases hn : s.representative n = lost
  · rw [if_pos hn]
    refine ⟨?_, hnodes.2⟩
    by_cases heq : s.representative n = n
    · rw [← heq, hn]
      exact hnodes.1
    · exact (h heq).1
  · rw [if_neg hn] at hne ⊢
    exact h hne

end Merged

/-- Fresh memory extends the graph. -/
theorem hasNode_createAllocation (hn : s.graph.hasNode n = true) (i : SiteId) :
    (s.createAllocation i).1.graph.hasNode n = true := by
  rw [ConstraintGraph.hasNode_iff] at hn ⊢
  rw [nodeCount_createAllocation]
  exact Nat.lt_add_right 2 hn

/-- The two nodes of fresh memory are the next ones of the graph. -/
theorem hasNode_fresh (s : Solver) (i : SiteId) {k : Nat} (hk : k < 2) :
    (s.createAllocation i).1.graph.hasNode (s.graph.nodeCount + k) = true := by
  rw [ConstraintGraph.hasNode_iff, nodeCount_createAllocation]
  exact Nat.add_lt_add_left hk _

/-! ## Merged nodes -/

/-- A node that was merged lies in the graph, and so does its representative. -/
def Grounded (s : Solver) : Prop :=
  ∀ n, s.representative n ≠ n →
    s.graph.hasNode n = true ∧ s.graph.hasNode (s.representative n) = true

namespace Grounded

/-- A node of the graph is represented by one. -/
theorem hasNode_representative (h : s.Grounded) (hn : s.graph.hasNode n = true) :
    s.graph.hasNode (s.representative n) = true := by
  exact holds_representative (P := fun n => s.graph.hasNode n = true) (h _) hn

/-- A node that the graph does not have represents itself. -/
theorem representative_of_le (h : s.Grounded) (hn : s.graph.nodeCount ≤ n) :
    s.representative n = n := by
  by_contra hne
  exact Nat.not_lt.mpr hn (ConstraintGraph.hasNode_iff.mp (h n hne).1)

/-- Merging nodes of the graph stays within it. -/
theorem join (h : s.Grounded) (hv : s.classes.Valid) (hj : s.Joinable a b lost survivor)
    (ha : s.graph.hasNode a = true) (hb : s.graph.hasNode b = true) :
    (s.join lost survivor).Grounded := by
  have hgraph : (s.join lost survivor).graph = s.graph := by rw [join_eq]
  intro n hne
  rw [hgraph]
  exact hj.holds_join (P := fun n => s.graph.hasNode n = true) (h _) hv ha hb hne

theorem connectCopy (h : s.Grounded) (added : CopySet) (a b : NodeId) :
    (s.connectCopy added a b).1.Grounded := by
  rcases s.connectCopy_cases added a b with ⟨heq, -⟩ | ⟨-, -, heq⟩
  · rw [heq]
    exact h
  · rw [heq]
    exact h

theorem createAllocation (h : s.Grounded) (i : SiteId) : (s.createAllocation i).1.Grounded :=
  fun n hne => ⟨hasNode_createAllocation (h n hne).1 i, hasNode_createAllocation (h n hne).2 i⟩

theorem wire (h : u.1.Grounded) (hw : Wire F A u v) : v.1.Grounded := by
  cases hw with
  | report _ => exact h
  | copy _ => exact h.connectCopy _ _ _
  | memory _ _ _ _ => exact h.connectCopy _ _ _
  | allocate _ _ _ => exact h.createAllocation _

theorem wiring (h : u.1.Grounded) (hw : Wiring F A u v) : v.1.Grounded :=
  hw.keeps (I := fun v => v.1.Grounded) (fun hw hv => hv.wire hw) h

end Grounded

/-! ## Contained states -/

/-- **Classes, sets, waiting classes and memory lie in the graph.** -/
structure Contained (s : Solver) : Prop where
  merged : ∀ {n}, s.representative n ≠ n →
    s.graph.hasNode n = true ∧ s.graph.hasNode (s.representative n) = true
  objects : ∀ {r o}, o ∈ s.store.get r → s.graph.hasNode o = true
  worklist : ∀ {n}, n ∈ s.worklist.toList → s.graph.hasNode n = true
  allocations : ∀ {i m}, s.allocation? i = some m →
    s.graph.hasNode m.value = true ∧ s.graph.hasNode m.object = true

namespace Contained

theorem grounded (h : s.Contained) : s.Grounded := fun _ => h.merged

/-- A node of the graph is represented by one. -/
theorem hasNode_representative (h : s.Contained) (hn : s.graph.hasNode n = true) :
    s.graph.hasNode (s.representative n) = true :=
  h.grounded.hasNode_representative hn

/-- A node that the graph does not have represents itself. -/
theorem representative_of_le (h : s.Contained) (hn : s.graph.nodeCount ≤ n) :
    s.representative n = n :=
  h.grounded.representative_of_le hn

/-- It represents no other node. -/
theorem eq_of_representative (h : s.Contained) (hn : s.graph.nodeCount ≤ n)
    (hm : s.representative m = n) : m = n := by
  by_contra hne
  have hmerged := h.merged fun heq : s.representative m = m => hne (heq.symm.trans hm)
  exact Nat.not_lt.mpr hn (hm ▸ ConstraintGraph.hasNode_iff.mp hmerged.2)

/-! ## Operations by hand -/

theorem store (h : s.Contained) (sets : Store)
    (hsets : ∀ {r o}, o ∈ sets.get r → s.graph.hasNode o = true) :
    { s with store := sets }.Contained :=
  ⟨h.merged, hsets, h.worklist, h.allocations⟩

theorem addObject (h : s.Contained) (ho : s.graph.hasNode o = true) (n : NodeId) :
    (s.addObject n o).1.Contained :=
  h.store _ (Store.forall_mem_insert h.objects ho (s.representative n))

theorem addObjects (h : s.Contained) {objects : IdSet}
    (ho : ∀ o ∈ objects, s.graph.hasNode o = true) (n : NodeId) :
    (s.addObjects n objects).1.Contained :=
  h.store _ (Store.forall_mem_union h.objects ho (s.representative n))

theorem addObjectsOf (h : s.Contained) (n m : NodeId) : (s.addObjectsOf n m).1.Contained :=
  h.store _ (Store.forall_mem_unionFrom h.objects (s.representative n) (s.representative m))

theorem enqueue (h : s.Contained) (hv : s.worklist.Valid) (hn : s.graph.hasNode n = true) :
    (s.enqueue n).1.Contained := by
  refine ⟨h.merged, h.objects, fun {m} hm => ?_, h.allocations⟩
  rcases (Worklist.mem_push hv).mp hm with rfl | hm
  · exact h.hasNode_representative hn
  · exact h.worklist hm

theorem join (h : s.Contained) (hv : s.classes.Valid) (hj : s.Joinable a b lost survivor)
    (ha : s.graph.hasNode a = true) (hb : s.graph.hasNode b = true) :
    (s.join lost survivor).Contained := by
  have hgraph : (s.join lost survivor).graph = s.graph := by rw [join_eq]
  refine ⟨h.grounded.join hv hj ha hb _, fun {r o} ho => ?_, fun {n} hn => ?_, fun {i m} hm => ?_⟩
  · rw [hgraph]
    exact forall_mem_join hj h.objects ho
  · rw [join_eq] at hn ⊢
    exact h.worklist hn
  · rw [join_eq] at hm ⊢
    exact h.allocations hm

/-- Unifying nodes of the graph makes one of their two representatives survive, which is a node of
the graph. -/
theorem unify (h : s.Contained) (hv : s.ValidBut held) (ha : s.graph.hasNode a = true)
    (hb : s.graph.hasNode b = true) : (s.unify a b).1.Contained := by
  rcases s.unify_cases a b with ⟨-, heq⟩ | ⟨lost, survivor, hj, heq⟩
  · rw [heq]
    exact h
  · rw [heq]
    have hjoined := h.join hv.classes hj ha hb
    have hsurvivor : s.graph.hasNode survivor = true :=
      (hj.holds (P := fun n => s.graph.hasNode n = true) h.merged ha hb).2
    exact hjoined.enqueue (hv.join hj).worklist (by rw [join_eq]; exact hsurvivor)

theorem mergeInto (h : s.Contained) (hv : s.classes.Valid) (hn : s.graph.hasNode n = true)
    (hm : s.graph.hasNode m = true) : (s.mergeInto n m).1.Contained := by
  rcases s.mergeInto_cases n m with ⟨-, heq⟩ | ⟨hj, heq⟩
  · rw [heq]
    exact h
  · rw [heq]
    exact h.join hv hj hn hm

theorem dequeue? (h : s.Contained) (hd : s.dequeue? = some (n, t)) : t.Contained := by
  obtain ⟨m, w, hpop, -, rfl⟩ := dequeue?_cases hd
  exact ⟨h.merged, h.objects, fun hm => h.worklist ((Worklist.mem_of_pop? hpop).mpr (.inr hm)),
    h.allocations⟩

theorem hand (h : s.Contained) (hv : s.Valid) (op : Hand)
    (hop : ∀ n ∈ op.nodes, s.graph.hasNode n = true) : (op.apply s).Contained := by
  cases op with
  | addObject n o => exact h.addObject (hop o (by simp [Hand.nodes])) n
  | addObjects n objects =>
    exact h.addObjects (fun o ho => hop o (List.mem_cons_of_mem n ho)) n
  | addObjectsOf n m => exact h.addObjectsOf n m
  | mergeInto n m =>
    exact h.mergeInto hv.classes (hop n (by simp [Hand.nodes])) (hop m (by simp [Hand.nodes]))
  | unify a b => exact h.unify hv (hop a (by simp [Hand.nodes])) (hop b (by simp [Hand.nodes]))
  | subsume n sub => exact ⟨h.merged, h.objects, h.worklist, h.allocations⟩
  | enqueue n => exact h.enqueue hv.worklist (hop n (by simp [Hand.nodes]))
  | dequeue =>
    change ((s.dequeue?.map Prod.snd).getD s).Contained
    cases hd : s.dequeue? with
    | none => exact h
    | some popped => exact h.dequeue? hd

/-! ## Steps -/

theorem joins {R : NodeId → NodeId → Prop} (h : s.Contained) (hv : s.ValidBut held)
    (hR : ∀ a b, R a b → s.graph.hasNode a = true ∧ s.graph.hasNode b = true) (hj : Joins R s t) :
    t.Contained := by
  induction hj with
  | refl => exact h
  | @tail t counters a b hj hc hab ih =>
    have hcounted : { t with counters }.Contained :=
      ⟨ih.merged, ih.objects, ih.worklist, ih.allocations⟩
    have hgraph : t.graph = s.graph := hj.frame.graph
    have hnodes := hR a b hab
    rw [← hgraph] at hnodes
    exact hcounted.unify ((hj.validBut hv).congr rfl rfl rfl rfl rfl) hnodes.1 hnodes.2

theorem treat (h : s.Contained) (hv : s.Valid) (hrep : s.representative rep = rep) :
    (s.treat rep).1.Contained := by
  obtain ⟨edges, loaded, held, hvalid, hjoins⟩ := joins_treat hv hrep
  have hloaded : { s with edges, loaded }.Contained :=
    ⟨h.merged, h.objects, h.worklist, h.allocations⟩
  exact hloaded.joins hvalid (fun a b hab => ⟨hab.left, hab.right⟩) hjoins

theorem connectCopy (h : s.Contained) (added : CopySet) (a b : NodeId) :
    (s.connectCopy added a b).1.Contained := by
  rcases s.connectCopy_cases added a b with ⟨heq, -⟩ | ⟨-, -, heq⟩
  · rw [heq]
    exact h
  · rw [heq]
    exact ⟨h.merged, h.objects, h.worklist, h.allocations⟩

/-- Fresh memory lies in the graph that it extends. New are one object in one set and the memory of
one site, and both name the two fresh nodes. -/
theorem createAllocation (h : s.Contained) (i : SiteId) : (s.createAllocation i).1.Contained := by
  have hold : ∀ {n}, s.graph.hasNode n = true →
      (s.createAllocation i).1.graph.hasNode n = true := fun hn => hasNode_createAllocation hn i
  refine ⟨h.grounded.createAllocation i _, fun {r o} ho => ?_, fun hn => hold (h.worklist hn),
    fun {j m} hm => ?_⟩
  · rw [get_createAllocation] at ho
    split at ho
    · rcases (IdSet.mem_insert ..).mp ho with rfl | ho
      · exact hasNode_fresh s i Nat.one_lt_two
      · exact hold (h.objects ho)
    · exact hold (h.objects ho)
  · rw [allocation?_createAllocation] at hm
    split at hm
    · cases hm
      rw [createAllocation_snd]
      exact ⟨hasNode_fresh s i Nat.two_pos, hasNode_fresh s i Nat.one_lt_two⟩
    · exact ⟨hold (h.allocations hm).1, hold (h.allocations hm).2⟩

theorem wire (h : u.1.Contained) (hw : Wire F A u v) : v.1.Contained := by
  cases hw with
  | report e => exact ⟨h.merged, h.objects, h.worklist, h.allocations⟩
  | copy _ => exact h.connectCopy ..
  | memory _ _ _ _ => exact h.connectCopy ..
  | allocate _ _ _ => exact h.createAllocation _

theorem wiring (h : u.1.Contained) (hw : Wiring F A u v) : v.1.Contained :=
  hw.keeps (I := fun v => v.1.Contained) (fun hw hv => hv.wire hw) h

theorem step (h : s.Contained) (hv : s.Valid) (hL : L.Bounded) (hstep : Step L s t) :
    t.Contained := by
  cases hstep with
  | note _ => exact ⟨h.merged, h.objects, h.worklist, h.allocations⟩
  | hand op hop => exact h.hand hv op (hL hop)
  | @address o p _ ho hp =>
    have hadded : (s.addObject p o).1.Contained := h.addObject ho p
    have hcounted : { (s.addObject p o).1 with
        counters.addrEdgesProcessed := s.counters.addrEdgesProcessed + 1 }.Contained :=
      ⟨hadded.merged, hadded.objects, hadded.worklist, hadded.allocations⟩
    exact hcounted.enqueue hv.worklist hp
  | seeded _ => exact ⟨h.merged, h.objects, h.worklist, h.allocations⟩
  | wait hn => exact h.enqueue hv.worklist hn
  | pop hd => exact h.dequeue? hd
  | treat hr => exact h.treat hv hr
  | callee _ _ _ => exact ⟨h.merged, h.objects, h.worklist, h.allocations⟩
  | wiring hw _ _ => exact h.wiring hw
  | record _ => exact ⟨h.merged, h.objects, h.worklist, h.allocations⟩

/-- **Steps within the graph keep a state contained.** -/
theorem steps (h : s.Contained) (hs : s.Coherent) (hL : L.Bounded) (hsteps : Steps L s t) :
    t.Contained :=
  hsteps.keeps hs (fun ht hstep hc => step hc ht.valid hL hstep) h

end Contained

end Solver

open Solver

variable {p : Problem} {s : Solver}

/-- The sets that an analysis starts from hold nodes of the graph. -/
def Problem.Contained (p : Problem) : Prop :=
  ∀ {r o}, o ∈ p.store.get r → p.graph.hasNode o = true

/-- A graph, functions, sites and settings: no sets at the start, and no address edges from
outside. -/
structure Problem.Plain (p : Problem) : Prop where
  made : p.Made
  store : p.store = ∅
  outside : p.outsideAddresses = []

theorem Problem.Plain.contained (hp : p.Plain) : p.Contained := by
  intro r o ho
  rw [hp.store] at ho
  exact absurd (Store.get_empty r ▸ ho) List.not_mem_nil

theorem sampleProblem_plain : sampleProblem.Plain := ⟨sampleProblem_made, rfl, rfl⟩

theorem contained_ofProblem (hp : p.Contained) (h : ofProblem p = .ok s) : s.Contained := by
  obtain ⟨-, -, rfl⟩ := ofProblem_eq_ok h
  refine ⟨fun hne => absurd (Partition.find_empty _) hne, hp, fun {n} hn => ?_, fun {i m} hm => ?_⟩
  · have hempty : (Worklist.empty p.settings.worklistOrder).toList = [] := rfl
    exact absurd (hempty ▸ hn) List.not_mem_nil
  · cases (allocation?_ofProblem h).symm.trans hm

/-- **Operations that name nodes of the graph keep a state contained.** -/
theorem Reachable.contained (hp : p.Made) (hc : p.Contained) (h : Reachable .known p s) :
    s.Contained :=
  h.keeps hp (contained_ofProblem hc) fun hs hsteps hcontained =>
    hcontained.steps hs Licence.bounded_within_known hsteps

end PointsTo
