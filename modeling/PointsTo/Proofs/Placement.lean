import PointsTo.Proofs.Closure
import PointsTo.Proofs.Ordered
import PointsTo.Proofs.Store

/-!
# Sets are held at representatives

Every set that the solver grows is that of a representative, and a merge moves the set of the
absorbed class away. One write does not ask for the representative: fresh memory puts its object
straight into the set of a fresh node. That is sound as long as no fresh node was merged before it
was made, which holds when the classes that are merged by hand are classes of the graph.

Nothing is asked of the objects of a set. An object that is no node of the graph is never merged,
since a class with loads or stores through it is refused.

## Main definitions

* `Governed`: the states that a history following a rule leads to
* `IdSet.Built`: the sets that the operations on sets make
* `Operation.Proper`: nodes acted on are nodes of the graph, and sets are made by these operations
* `Solver.Seated`: sets are held at representatives, and merged nodes lie in the graph

## Main results

* `Governed.keeps`: what the steps of a licence keep holds after every history that it covers
* `Seated.step`: every step that merges nodes of the graph keeps sets at representatives
* `seated_of_governed`: so does every proper history, and its sets ascend
-/

namespace PointsTo

open Solver

/-! ## Histories that follow a rule -/

/-- **The states that a history leads to whose operations follow a rule.** -/
inductive Governed (rule : Solver → Operation → Prop) (p : Problem) : Solver → Prop
  | start {s : Solver} : ofProblem p = .ok s → Governed rule p s
  | apply {s : Solver} (op : Operation) : Governed rule p s → rule s op →
      Governed rule p (op.apply s)

namespace Governed

variable {rule : Solver → Operation → Prop} {p : Problem} {s : Solver} {L : Licence}

theorem reachable (h : Governed rule p s) : Reachable .any p s := by
  induction h with
  | start hs => exact .start hs
  | apply op _ _ ih => exact .apply op ih fun _ _ => trivial

theorem mono {rule' : Solver → Operation → Prop} (h : Governed rule p s)
    (hrule : ∀ {s op}, rule s op → rule' s op) : Governed rule' p s := by
  induction h with
  | start hs => exact .start hs
  | apply op _ hop ih => exact .apply op ih (hrule hop)

theorem analyze (h : Governed rule p s) (hrule : rule s (.analyze .builtin ())) :
    Governed rule p s.analyze.1 :=
  .apply (.analyze .builtin ()) h hrule

/-- **What the steps of a licence keep holds after every history that it covers.** -/
theorem keeps {I : Solver → Prop} (hp : p.Made) (hL : .analysis ≤ L)
    (hrule : ∀ {s op}, rule s op → op.Licensed L s) (hstart : ∀ {s}, ofProblem p = .ok s → I s)
    (hstep : ∀ {s t}, s.Coherent → Step L s t → I s → I t) (h : Governed rule p s) : I s := by
  induction h with
  | start hs => exact hstart hs
  | apply op hs hop ih =>
    have hcoherent := hs.reachable.coherent hp
    exact ((hrule hop).steps hL hcoherent).keeps hcoherent hstep ih

end Governed

/-! ## Proper operations -/

/-- The sets that the operations on sets make. -/
inductive IdSet.Built : IdSet → Prop
  | empty : Built ∅
  | singleton (x : Nat) : Built (.singleton x)
  | ofList (xs : List Nat) : Built (.ofList xs)
  | insert {s : IdSet} (x : Nat) : Built s → Built (s.insert x)
  | union {s t : IdSet} : Built s → Built t → Built (s ∪ t)

theorem IdSet.Built.ascending {s : IdSet} (h : s.Built) : s.Ascending := by
  induction h with
  | empty => exact ascending_empty
  | singleton x => exact ascending_singleton x
  | ofList xs => exact ascending_ofList xs
  | insert x _ ih => exact ascending_insert ih x
  | union _ _ ihs iht => exact ascending_union ihs iht

namespace Solver.Hand

/-- The nodes that an operation acts on; the objects that it adds to a set are none of them. -/
def places : Hand → List NodeId
  | addObject n _ => [n]
  | addObjects n _ => [n]
  | addObjectsOf n m => [n, m]
  | mergeInto n m => [n, m]
  | unify a b => [a, b]
  | subsume n sub => [n, sub]
  | enqueue n => [n]
  | dequeue => []

/-- The nodes whose classes an operation merges. -/
def merges : Hand → List NodeId
  | mergeInto n m => [n, m]
  | unify a b => [a, b]
  | _ => []

theorem mem_places_of_mem_merges {op : Hand} {n : NodeId} (h : n ∈ op.merges) : n ∈ op.places := by
  cases op with
  | mergeInto _ _ | unify _ _ => exact h
  | _ => cases h

/-- The set that an operation is given. -/
def set? : Hand → Option IdSet
  | addObjects _ objects => some objects
  | _ => none

end Solver.Hand

/-- **An operation is proper** when the nodes that it acts on by hand are nodes of the graph and its
set was made by the operations on sets. Objects, call sites and functions may be anything. -/
def Operation.Proper (s : Solver) : Operation → Prop
  | .hand op => (∀ n ∈ op.places, s.graph.hasNode n = true) ∧ ∀ set ∈ op.set?, set.Built
  | _ => True

namespace Licence

/-- Operations by hand merge classes of nodes of the graph. -/
def Anchored (L : Licence) : Prop :=
  ∀ {s op}, L.hand s op → ∀ n ∈ op.merges, s.graph.hasNode n = true

/-- What proper operations may do. -/
def proper : Licence where
  hand s op := Operation.Proper s (.hand op)
  copy _ _ _ := True
  allocate _ _ := True

theorem analysis_le_proper : analysis ≤ proper :=
  ⟨fun h => h.elim, fun _ => trivial, fun _ => trivial⟩

theorem anchored_proper : proper.Anchored := fun h n hn =>
  h.1 n (Solver.Hand.mem_places_of_mem_merges hn)

theorem ordered_proper : proper.Ordered := fun h => (h.2 _ rfl).ascending

end Licence

theorem Operation.Proper.licensed {s : Solver} {op : Operation} (h : op.Proper s) :
    op.Licensed .proper s := by
  refine ⟨?_, fun _ _ => trivial, fun _ => trivial⟩
  rintro op rfl
  exact h

/-! ## Sets at representatives -/

namespace Solver

variable {s t : Solver} {L : Licence} {R : NodeId → NodeId → Prop} {F : NodeId → NodeId → Prop}
  {A : SiteId → Prop} {u v : Solver × CopySet} {held : ClassEdges}
  {n m o a b rep lost survivor : NodeId}

/-- **Sets are held at representatives**, and merged nodes lie in the graph. -/
structure Seated (s : Solver) : Prop where
  grounded : s.Grounded
  /-- A node with an object in its own set is a representative. -/
  sets : ∀ {n o}, o ∈ s.store.get n → s.representative n = n

namespace Seated

theorem store (h : s.Seated) (sets : Store)
    (hsets : ∀ {n o}, o ∈ sets.get n → s.representative n = n) : { s with store := sets }.Seated :=
  ⟨h.grounded, hsets⟩

theorem addObject (h : s.Seated) (hv : s.classes.Valid) (n o : NodeId) :
    (s.addObject n o).1.Seated := by
  refine h.store (s.store.insert (s.representative n) o).1 fun {m x} hx => ?_
  rw [Store.get_insert] at hx
  split at hx
  · rename_i hm
    rw [hm]
    exact hv.find_find n
  · exact h.sets hx

theorem addObjects (h : s.Seated) (hv : s.classes.Valid) (n : NodeId) (objects : IdSet) :
    (s.addObjects n objects).1.Seated := by
  refine h.store (s.store.union (s.representative n) objects).1 fun {m x} hx => ?_
  rw [Store.get_union] at hx
  split at hx
  · rename_i hm
    rw [hm.1]
    exact hv.find_find n
  · exact h.sets hx

theorem addObjectsOf (h : s.Seated) (hv : s.classes.Valid) (n m : NodeId) :
    (s.addObjectsOf n m).1.Seated := by
  refine h.store (s.store.unionFrom (s.representative n) (s.representative m)).1 fun {k x} hx => ?_
  rw [Store.get_unionFrom] at hx
  split at hx
  · rename_i hk
    rw [hk.1]
    exact hv.find_find n
  · exact h.sets hx

/-! ### Merging -/

/-- A merge leaves nothing at the absorbed node. -/
theorem join (h : s.Seated) (hv : s.classes.Valid) (hj : s.Joinable a b lost survivor)
    (ha : s.graph.hasNode a = true) (hb : s.graph.hasNode b = true) :
    (s.join lost survivor).Seated := by
  refine ⟨h.grounded.join hv hj ha hb, fun {n o} ho => ?_⟩
  rw [mem_get_join s hj.ne] at ho
  rw [representative_join hv (hj.lost_eq hv)]
  by_cases hn : n = survivor
  · rw [hn, hj.survivor_eq hv, if_neg hj.ne.symm]
  · rw [if_neg hn] at ho
    rw [h.sets ho.2, if_neg ho.1]

theorem unify (h : s.Seated) (hv : s.classes.Valid) (ha : s.graph.hasNode a = true)
    (hb : s.graph.hasNode b = true) : (s.unify a b).1.Seated := by
  rcases s.unify_cases a b with ⟨-, heq⟩ | ⟨lost, survivor, hj, heq⟩
  · rw [heq]
    exact h
  · have hjoined := h.join hv hj ha hb
    rw [heq]
    exact ⟨hjoined.grounded, hjoined.sets⟩

theorem mergeInto (h : s.Seated) (hv : s.classes.Valid) (hn : s.graph.hasNode n = true)
    (hm : s.graph.hasNode m = true) : (s.mergeInto n m).1.Seated := by
  rcases s.mergeInto_cases n m with ⟨-, heq⟩ | ⟨hj, heq⟩
  · rw [heq]
    exact h
  · rw [heq]
    exact h.join hv hj hn hm

theorem joins (h : s.Seated) (hv : s.ValidBut held)
    (hR : ∀ a b, R a b → s.graph.hasNode a = true ∧ s.graph.hasNode b = true) (hj : Joins R s t) :
    t.Seated := by
  induction hj with
  | refl => exact h
  | @tail t counters a b hj _ hab ih =>
    have hgraph : t.graph = s.graph := hj.frame.graph
    have hnodes := hR a b hab
    rw [← hgraph] at hnodes
    exact unify (s := { t with counters }) ⟨ih.grounded, ih.sets⟩ (hj.validBut hv).classes
      hnodes.1 hnodes.2

/-- What is merged when a class is treated are ends of constraints, and objects that were looked
up in the graph. -/
theorem treat (h : s.Seated) (hv : s.Valid) (hrep : s.representative rep = rep) :
    (s.treat rep).1.Seated := by
  obtain ⟨edges, loaded, held, hvalid, hjoins⟩ := joins_treat hv hrep
  exact joins (s := { s with edges, loaded }) ⟨h.grounded, h.sets⟩ hvalid
    (fun a b hab => ⟨hab.left, hab.right⟩) hjoins

/-! ### Connecting callees -/

theorem connectCopy (h : s.Seated) (added : CopySet) (a b : NodeId) :
    (s.connectCopy added a b).1.Seated := by
  refine ⟨h.grounded.connectCopy added a b, ?_⟩
  rcases s.connectCopy_cases added a b with ⟨heq, -⟩ | ⟨-, -, heq⟩
  · rw [heq]
    exact h.sets
  · rw [heq]
    exact h.sets

/-- **The object of fresh memory is put straight at a fresh node**, which represents itself since no
merged node lies beyond the graph. -/
theorem createAllocation (h : s.Seated) (i : SiteId) : (s.createAllocation i).1.Seated := by
  refine ⟨h.grounded.createAllocation i, fun {n o} ho => ?_⟩
  rw [get_createAllocation] at ho
  split at ho
  · rename_i hn
    exact h.grounded.representative_of_le hn.ge
  · exact h.sets ho

theorem wiring (h : u.1.Seated) (hw : Wiring F A u v) : v.1.Seated := by
  refine hw.keeps (I := fun v => v.1.Seated) (fun hw ht => ?_) h
  cases hw with
  | report _ => exact ⟨ht.grounded, ht.sets⟩
  | copy _ => exact ht.connectCopy ..
  | memory _ _ _ _ => exact ht.connectCopy ..
  | allocate _ _ _ => exact ht.createAllocation _

/-! ### Steps -/

theorem hand (h : s.Seated) (hv : s.Valid) (op : Hand)
    (hop : ∀ n ∈ op.merges, s.graph.hasNode n = true) : (op.apply s).Seated := by
  cases op with
  | addObject n o => exact h.addObject hv.classes n o
  | addObjects n objects => exact h.addObjects hv.classes n objects
  | addObjectsOf n m => exact h.addObjectsOf hv.classes n m
  | mergeInto n m =>
    exact h.mergeInto hv.classes (hop n (by simp [Hand.merges])) (hop m (by simp [Hand.merges]))
  | unify a b =>
    exact h.unify hv.classes (hop a (by simp [Hand.merges])) (hop b (by simp [Hand.merges]))
  | subsume _ _ | enqueue _ => exact ⟨h.grounded, h.sets⟩
  | dequeue =>
    obtain ⟨w, heq⟩ := Hand.apply_dequeue s
    rw [heq]
    exact ⟨h.grounded, h.sets⟩

/-- **Every step that merges nodes of the graph keeps sets at representatives.** -/
theorem step (h : s.Seated) (hv : s.Valid) (hL : L.Anchored) (hstep : Step L s t) : t.Seated := by
  cases hstep with
  | hand op hop => exact h.hand hv op (hL hop)
  | @address o p _ _ _ =>
    have hadded := h.addObject hv.classes p o
    exact ⟨hadded.grounded, hadded.sets⟩
  | pop hd =>
    obtain ⟨_, _, -, -, rfl⟩ := dequeue?_cases hd
    exact ⟨h.grounded, h.sets⟩
  | treat hrep => exact h.treat hv hrep
  | wiring hw _ _ => exact wiring (u := (s, _)) h hw
  | note _ | seeded _ | wait _ | callee _ _ _ | record _ => exact ⟨h.grounded, h.sets⟩

end Seated

end Solver

/-! ## Proper histories -/

variable {p : Problem} {s : Solver}

theorem seated_ofProblem (h : ofProblem p = .ok s) : s.Seated := by
  obtain ⟨-, -, rfl⟩ := ofProblem_eq_ok h
  exact ⟨fun n hne => absurd (Partition.find_empty n) hne, fun _ => Partition.find_empty _⟩

/-- **Sets live at representatives.** After any proper history, from sets that ascend or from none
at all, a node with a set that is not empty represents its class, and every set ascends. -/
theorem seated_of_governed (hp : p.Made) (hstore : p.store.Ascending)
    (h : Governed Operation.Proper p s) :
    (∀ n ∈ s.store.keys, s.representative n = n) ∧ ∀ n, (s.store.get n).Ascending := by
  have hL := Licence.analysis_le_proper
  have hseated : s.Seated := h.keeps hp hL (fun hop => hop.licensed) seated_ofProblem
    fun hs hstep hseated => hseated.step hs.valid Licence.anchored_proper hstep
  have hascending : s.store.Ascending :=
    h.keeps (I := fun s => s.store.Ascending) hp hL (fun hop => hop.licensed)
      (ascending_ofProblem hstore) fun hs hstep hsets => hsets.step hs.valid Licence.ordered_proper
        hstep
  refine ⟨fun n hn => ?_, hascending⟩
  obtain ⟨o, ho⟩ := Store.exists_mem_of_mem_keys hn
  exact hseated.sets ho

/-- The sample history is proper. -/
theorem governed_sampleHistory : Governed Operation.Proper sampleProblem sampleHistory := by
  refine .apply (.connect (.ofList [(4, [3])])) (.apply (.hand (.mergeInto 5 2))
    (.apply (.hand .dequeue) (.apply .enqueueNodes (.start ofProblem_sampleProblem) trivial) ?_) ?_)
    trivial
  · exact ⟨by decide, by simp [Hand.set?]⟩
  · exact ⟨by decide +kernel, by simp [Hand.set?]⟩

/-- A set with an object that is no node of the graph is added to the sample by hand, and the
analysis that follows makes memory. -/
theorem seated_analyze_sampleHistory :
    (sampleHistory.addObjects 9 (.ofList [40, 1])).1.analyze.1.store.keys = [0, 2, 7, 9] ∧
      ∀ n ∈ [0, 2, 7, 9],
        (sampleHistory.addObjects 9 (.ofList [40, 1])).1.analyze.1.representative n = n := by
  have hkeys : (sampleHistory.addObjects 9 (.ofList [40, 1])).1.analyze.1.store.keys =
      [0, 2, 7, 9] := by decide +kernel
  have hproper : Operation.Proper sampleHistory (.hand (.addObjects 9 (.ofList [40, 1]))) := by
    refine ⟨by decide +kernel, ?_⟩
    rintro set ⟨⟩
    exact .ofList _
  have hadded : Governed Operation.Proper sampleProblem
      (sampleHistory.addObjects 9 (.ofList [40, 1])).1 :=
    .apply (.hand (.addObjects 9 (.ofList [40, 1]))) governed_sampleHistory hproper
  have hseated :=
    (seated_of_governed sampleProblem_made Store.Ascending.empty (hadded.analyze trivial)).1
  rw [hkeys] at hseated
  exact ⟨hkeys, hseated⟩

end PointsTo
