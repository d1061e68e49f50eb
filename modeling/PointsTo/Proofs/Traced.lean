import PointsTo.Proofs.Contained
import PointsTo.Proofs.Members

/-!
# Where names come from

An operation by hand may name nodes that the graph does not have, and classes, sets and annotations
then hold them. They hold nothing else: every name in a state is one of a node of the graph, of the
sets at the start or of an operation. So as long as these are numbers of 32 bits, all that a state
holds are such numbers.

## Main definitions

* `Solver.Traceable`: a node of the graph, or one that may be named
* `Solver.Traced`: classes, sets and annotations hold such nodes only

## Main results

* `Traced.step`: a step that names only what may be named keeps a state traced
* `Reachable.traced`: so do histories
* `Reachable.exists_after`: a reachable state is the one after a list of operations
* `Reachable.ascending_subsumed`: what a node subsumes is listed in ascending order
-/

namespace PointsTo

namespace Solver

variable {s t : Solver} {named : NodeId → Prop} {F : NodeId → NodeId → Prop} {A : SiteId → Prop}
  {u v : Solver × CopySet} {held : ClassEdges} {n m o a b x rep lost survivor : NodeId}

/-- A node of the graph, or one that may be named. -/
def Traceable (named : NodeId → Prop) (s : Solver) (n : NodeId) : Prop :=
  named n ∨ s.graph.hasNode n = true

/-- **Classes, sets and annotations hold traceable nodes only.** -/
structure Traced (named : NodeId → Prop) (s : Solver) : Prop where
  merged : ∀ {n}, s.representative n ≠ n →
    s.Traceable named n ∧ s.Traceable named (s.representative n)
  objects : ∀ {r o}, o ∈ s.store.get r → s.Traceable named o
  annotations : ∀ {r x}, x ∈ s.classes.annotations.getD r ∅ → s.Traceable named x

namespace Traced

/-- A traceable node is represented by one. -/
theorem representative (h : s.Traced named) (hn : s.Traceable named n) :
    s.Traceable named (s.representative n) :=
  holds_representative h.merged hn

/-- A traceable node subsumes traceable ones. -/
theorem subsumed (h : s.Traced named) (hn : s.Traceable named n) (hx : x ∈ s.classes.subsumed n) :
    s.Traceable named x := by
  rcases (IdSet.mem_insert ..).mp hx with rfl | hx
  · exact hn
  · exact h.annotations hx

/-! ## Operations by hand -/

theorem store (h : s.Traced named) (sets : Store)
    (hsets : ∀ {r o}, o ∈ sets.get r → s.Traceable named o) :
    { s with store := sets }.Traced named :=
  ⟨h.merged, hsets, h.annotations⟩

theorem addObject (h : s.Traced named) (ho : s.Traceable named o) (n : NodeId) :
    (s.addObject n o).1.Traced named :=
  h.store _ (Store.forall_mem_insert h.objects ho (s.representative n))

theorem addObjects (h : s.Traced named) {objects : IdSet}
    (ho : ∀ o ∈ objects, s.Traceable named o) (n : NodeId) :
    (s.addObjects n objects).1.Traced named :=
  h.store _ (Store.forall_mem_union h.objects ho (s.representative n))

theorem addObjectsOf (h : s.Traced named) (n m : NodeId) : (s.addObjectsOf n m).1.Traced named :=
  h.store _ (Store.forall_mem_unionFrom h.objects (s.representative n) (s.representative m))

/-- A merge moves what the two classes hold, and lists the absorbed representative. -/
theorem join (h : s.Traced named) (hv : s.classes.Valid) (hj : s.Joinable a b lost survivor)
    (ha : s.Traceable named a) (hb : s.Traceable named b) :
    (s.join lost survivor).Traced named := by
  have hnodes := hj.holds h.merged ha hb
  have htrace : ∀ {n}, s.Traceable named n → (s.join lost survivor).Traceable named n := by
    rw [join_eq]
    exact id
  have hclasses : (s.join lost survivor).classes = s.classes.absorb lost survivor := by
    rw [join_eq]
  refine ⟨fun {n} hne => (hj.holds_join h.merged hv ha hb hne).imp htrace htrace,
    fun {r o} ho => htrace (forall_mem_join hj h.objects ho), fun {r x} hx => htrace ?_⟩
  rw [hclasses, Partition.annotations_absorb] at hx
  split at hx
  · rcases (IdSet.mem_union ..).mp hx with hx | hx
    · rcases (IdSet.mem_insert ..).mp hx with rfl | hx
      · exact hnodes.1
      · exact h.subsumed hnodes.2 hx
    · exact h.annotations hx
  · split at hx
    · exact absurd hx (IdSet.not_mem_empty x)
    · exact h.annotations hx

theorem unify (h : s.Traced named) (hv : s.classes.Valid) (ha : s.Traceable named a)
    (hb : s.Traceable named b) : (s.unify a b).1.Traced named := by
  rcases s.unify_cases a b with ⟨-, heq⟩ | ⟨lost, survivor, hj, heq⟩
  · rw [heq]
    exact h
  · rw [heq]
    have hjoined := h.join hv hj ha hb
    exact ⟨hjoined.merged, hjoined.objects, hjoined.annotations⟩

theorem mergeInto (h : s.Traced named) (hv : s.classes.Valid) (hn : s.Traceable named n)
    (hm : s.Traceable named m) : (s.mergeInto n m).1.Traced named := by
  rcases s.mergeInto_cases n m with ⟨-, heq⟩ | ⟨hj, heq⟩
  · rw [heq]
    exact h
  · rw [heq]
    exact h.join hv hj hn hm

theorem subsume (h : s.Traced named) (hn : s.Traceable named n) (hm : s.Traceable named m) :
    (s.subsume n m).Traced named := by
  refine ⟨h.merged, h.objects, fun {r x} hx => ?_⟩
  change x ∈ (s.classes.subsume n m).annotations.getD r ∅ at hx
  rw [Partition.annotations_subsume] at hx
  split at hx
  · rcases (IdSet.mem_insert ..).mp hx with rfl | hx
    · exact hm
    · exact h.subsumed hn hx
  · exact h.annotations hx

theorem hand (h : s.Traced named) (hv : s.Valid) (op : Hand)
    (hop : ∀ n ∈ op.nodes, s.Traceable named n) : (op.apply s).Traced named := by
  cases op with
  | addObject n o => exact h.addObject (hop o (by simp [Hand.nodes])) n
  | addObjects n objects =>
    exact h.addObjects (fun o ho => hop o (List.mem_cons_of_mem n ho)) n
  | addObjectsOf n m => exact h.addObjectsOf n m
  | mergeInto n m =>
    exact h.mergeInto hv.classes (hop n (by simp [Hand.nodes])) (hop m (by simp [Hand.nodes]))
  | unify a b =>
    exact h.unify hv.classes (hop a (by simp [Hand.nodes])) (hop b (by simp [Hand.nodes]))
  | subsume n sub => exact h.subsume (hop n (by simp [Hand.nodes])) (hop sub (by simp [Hand.nodes]))
  | enqueue n => exact ⟨h.merged, h.objects, h.annotations⟩
  | dequeue =>
    obtain ⟨w, heq⟩ := Hand.apply_dequeue s
    rw [heq]
    exact ⟨h.merged, h.objects, h.annotations⟩

/-! ## Steps -/

theorem joins {R : NodeId → NodeId → Prop} (h : s.Traced named) (hv : s.ValidBut held)
    (hR : ∀ a b, R a b → s.graph.hasNode a = true ∧ s.graph.hasNode b = true) (hj : Joins R s t) :
    t.Traced named := by
  induction hj with
  | refl => exact h
  | @tail t counters a b hj hc hab ih =>
    have hcounted : { t with counters }.Traced named := ⟨ih.merged, ih.objects, ih.annotations⟩
    have hgraph : t.graph = s.graph := hj.frame.graph
    have hnodes := hR a b hab
    rw [← hgraph] at hnodes
    exact hcounted.unify (hj.validBut hv).classes (.inr hnodes.1) (.inr hnodes.2)

theorem treat (h : s.Traced named) (hv : s.Valid) (hrep : s.representative rep = rep) :
    (s.treat rep).1.Traced named := by
  obtain ⟨edges, loaded, held, hvalid, hjoins⟩ := joins_treat hv hrep
  have hloaded : { s with edges, loaded }.Traced named := ⟨h.merged, h.objects, h.annotations⟩
  exact hloaded.joins hvalid (fun a b hab => ⟨hab.left, hab.right⟩) hjoins

theorem connectCopy (h : s.Traced named) (added : CopySet) (a b : NodeId) :
    (s.connectCopy added a b).1.Traced named := by
  rcases s.connectCopy_cases added a b with ⟨heq, -⟩ | ⟨-, -, heq⟩
  · rw [heq]
    exact h
  · rw [heq]
    exact ⟨h.merged, h.objects, h.annotations⟩

/-- Fresh memory extends the graph, and its object is a node of it. -/
theorem createAllocation (h : s.Traced named) (i : SiteId) :
    (s.createAllocation i).1.Traced named := by
  have hold : ∀ {n}, s.Traceable named n → (s.createAllocation i).1.Traceable named n :=
    fun hn => hn.imp_right fun hn => hasNode_createAllocation hn i
  refine ⟨fun hne => ⟨hold (h.merged hne).1, hold (h.merged hne).2⟩, fun {r o} ho => ?_,
    fun hx => hold (h.annotations hx)⟩
  rw [get_createAllocation] at ho
  split at ho
  · rcases (IdSet.mem_insert ..).mp ho with rfl | ho
    · exact .inr (hasNode_fresh s i Nat.one_lt_two)
    · exact hold (h.objects ho)
  · exact hold (h.objects ho)

theorem wiring (h : u.1.Traced named) (hw : Wiring F A u v) : v.1.Traced named := by
  refine hw.keeps (I := fun v => v.1.Traced named) (fun hw ht => ?_) h
  cases hw with
  | report _ => exact ⟨ht.merged, ht.objects, ht.annotations⟩
  | copy _ => exact ht.connectCopy _ _ _
  | memory _ _ _ _ => exact ht.connectCopy _ _ _
  | allocate _ _ _ => exact ht.createAllocation _

/-- **A step that names only what may be named keeps a state traced.** -/
theorem step (h : s.Traced named) (hv : s.Valid)
    (hstep : Step (.within fun _ => named) s t) : t.Traced named := by
  cases hstep with
  | hand op hop => exact h.hand hv op fun n hn => .inl (hop n hn)
  | @address o p _ ho _ =>
    have hadded : (s.addObject p o).1.Traced named := h.addObject (.inr ho) p
    exact ⟨hadded.merged, hadded.objects, hadded.annotations⟩
  | pop hd =>
    obtain ⟨_, _, -, -, rfl⟩ := dequeue?_cases hd
    exact ⟨h.merged, h.objects, h.annotations⟩
  | treat hr => exact h.treat hv hr
  | wiring hw _ _ => exact h.wiring hw
  | note _ | seeded _ | wait _ | callee _ _ _ | record _ =>
    exact ⟨h.merged, h.objects, h.annotations⟩

end Traced

end Solver

open Solver

variable {p : Problem} {s : Solver} {named : NodeId → Prop} {scope : Scope}

/-! ## Histories -/

theorem traced_ofProblem (hp : ∀ {r o}, o ∈ p.store.get r → named o) (h : ofProblem p = .ok s) :
    s.Traced named := by
  obtain ⟨-, -, rfl⟩ := ofProblem_eq_ok h
  refine ⟨fun hne => absurd (Partition.find_empty _) hne, fun ho => .inl (hp ho),
    fun {r x} hx => ?_⟩
  have hnone : (∅ : Partition).annotations.getD r ∅ = ∅ := Std.ExtTreeMap.getD_empty
  exact absurd (hnone ▸ hx) (IdSet.not_mem_empty x)

/-- **All that a reachable state holds is traceable.** -/
theorem Reachable.traced (hp : p.Made) (hstore : ∀ {r o}, o ∈ p.store.get r → named o)
    (h : Reachable (fun _ => named) p s) : s.Traced named :=
  h.keeps hp (traced_ofProblem hstore) fun hs hsteps htraced =>
    hsteps.keeps (I := fun t => t.Traced named) hs
      (fun ht hstep hc => hc.step ht.valid hstep) htraced

/-- An analysis names nothing. -/
theorem Reachable.analyze (h : Reachable scope p s) : Reachable scope p s.analyze.1 :=
  .apply (.analyze .builtin ()) h fun _ hn => absurd hn List.not_mem_nil

/-- A reachable state is the one after a list of operations. -/
theorem Reachable.exists_after (h : Reachable scope p s) :
    ∃ start ops, ofProblem p = .ok start ∧ s = start.after ops := by
  induction h with
  | @start s hs => exact ⟨s, [], hs, rfl⟩
  | apply op _ _ ih =>
    obtain ⟨start, ops, hstart, rfl⟩ := ih
    exact ⟨start, ops ++ [op], hstart, (start.after_append_singleton ops op).symm⟩

/-- What a node subsumes is listed in ascending order. -/
theorem Reachable.ascending_subsumed (hp : p.Made) (h : Reachable scope p s) (n : NodeId) :
    (s.classes.subsumed n).Ascending := by
  obtain ⟨start, ops, hstart, rfl⟩ := h.exists_after
  exact IdSet.ascending_insert ((annotatedBy_after hp hstart ops).ascending n) n

end PointsTo
