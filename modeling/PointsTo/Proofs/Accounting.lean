import PointsTo.Proofs.Gathered
import PointsTo.Proofs.Snapshot

/-!
# The accounts of merges and classes

Merges are counted in three places: by the solver whenever one class absorbs another, by the
partition, and by the table of representatives, whose entries are the nodes merged away. Classes are
counted in two: as distinct representatives of the nodes of the graph, and as nodes less entries of
the table. All agree, since a merge takes one representative away and lists it for the first time,
as long as no class reaches beyond the graph: then a node of the graph is listed or represents
itself, and nothing else is listed.

## Main definitions

* `Operation.Placed`: nodes acted on by hand are nodes of the graph
* `Solver.Booked`: the solver counted the merges that the partition made
* `Solver.Accounted`: all counts agree

## Main results

* `Flat.countClasses_add_mergedNodeCount`: classes and merged nodes are as many as nodes
* `representatives_freeze`: a snapshot lists the table of representatives
* `Booked.step`: every step counts the merges that it makes
* `accounted_of_governed`: all counts agree after every history that names nodes of the graph
-/

namespace PointsTo

namespace Partition

variable {p : Partition}

/-- The nodes listed by a flat table are those that do not represent themselves. -/
theorem Flat.getElem?_representatives (h : p.Flat) (n : NodeId) :
    p.representatives[n]? = if p.find n = n then none else some (p.find n) := by
  have hmem := h.mem_representatives n
  have hfind : p.find n = p.representatives[n]?.getD n := Std.ExtTreeMap.getD_eq_getD_getElem?
  by_cases hself : p.find n = n
  · rw [if_pos hself]
    exact Std.ExtTreeMap.getElem?_eq_none fun hn => hmem.mp hn hself
  · have hsome := Std.ExtTreeMap.mem_iff_isSome_getElem?.mp (hmem.mpr hself)
    obtain ⟨r, hr⟩ := Option.isSome_iff_exists.mp hsome
    rw [if_neg hself, hfind, hr, Option.getD_some]

/-- The nodes below `n` that represent themselves are the representatives of the nodes below `n`,
if no class reaches beyond. -/
theorem Flat.image_find_range (h : p.Flat) {n : Nat}
    (hbelow : ∀ m, p.find m ≠ m → m < n ∧ p.find m < n) :
    (List.range n).toFinset.image p.find = (Finset.range n).filter fun m => p.find m = m := by
  ext r
  simp only [Finset.mem_image, List.mem_toFinset, List.mem_range, Finset.mem_filter,
    Finset.mem_range]
  constructor
  · rintro ⟨m, hm, rfl⟩
    refine ⟨?_, h.find_find m⟩
    by_cases hself : p.find m = m
    · rwa [hself]
    · exact (hbelow m hself).2
  · rintro ⟨hr, hself⟩
    exact ⟨r, hr, hself⟩

/-- **Classes and merged nodes are as many as nodes**, if no class reaches beyond them. -/
theorem Flat.countClasses_add_mergedNodeCount (h : p.Flat) {n : Nat}
    (hbelow : ∀ m, p.find m ≠ m → m < n ∧ p.find m < n) :
    p.countClasses (List.range n) + p.mergedNodeCount = n := by
  have hlisted : p.representatives.keys.toFinset =
      (Finset.range n).filter fun m => ¬ p.find m = m := by
    ext m
    rw [List.mem_toFinset, Std.ExtTreeMap.mem_keys, h.mem_representatives, Finset.mem_filter,
      Finset.mem_range]
    exact ⟨fun hm => ⟨(hbelow m hm).1, hm⟩, And.right⟩
  have hmerged : p.mergedNodeCount = p.representatives.keys.toFinset.card := by
    rw [List.toFinset_card_of_nodup Std.ExtTreeMap.nodup_keys, Std.ExtTreeMap.length_keys,
      mergedNodeCount]
  rw [countClasses_eq_card, h.image_find_range hbelow, hmerged, hlisted,
    Finset.card_filter_add_card_filter_not, Finset.card_range]

end Partition

namespace Solver

variable {s t : Solver} {L : Licence} {R : NodeId → NodeId → Prop} {lost survivor rep : NodeId}

/-! ## The books of the solver -/

/-- **The solver counted the merges that the partition made.** -/
def Booked (s : Solver) : Prop := s.counters.merges = s.classes.mergeCount

namespace Booked

theorem join (h : s.Booked) (lost survivor : NodeId) : (s.join lost survivor).Booked := by
  rw [join_eq]
  exact congrArg (· + 1) h

theorem unify (h : s.Booked) (a b : NodeId) : (s.unify a b).1.Booked := by
  rcases s.unify_cases a b with ⟨-, heq⟩ | ⟨lost, survivor, -, heq⟩
  · rw [heq]
    exact h
  · rw [heq]
    exact h.join lost survivor

theorem mergeInto (h : s.Booked) (n m : NodeId) : (s.mergeInto n m).1.Booked := by
  rcases s.mergeInto_cases n m with ⟨-, heq⟩ | ⟨-, heq⟩
  · rw [heq]
    exact h
  · rw [heq]
    exact h.join _ _

/-- Counting edges between two unifications counts no merge. -/
theorem joins (h : s.Booked) (hj : Joins R s t) : t.Booked := by
  induction hj with
  | refl => exact h
  | @tail t counters a b _ hc _ ih =>
    have hmerges := congrArg Counters.merges hc
    have hcounted : { t with counters }.Booked := hmerges.trans ih
    exact hcounted.unify a b

theorem treat (h : s.Booked) (hv : s.Valid) (hrep : s.representative rep = rep) :
    (s.treat rep).1.Booked := by
  obtain ⟨edges, loaded, held, -, hjoins⟩ := joins_treat hv hrep
  exact joins (s := { s with edges, loaded }) h hjoins

theorem hand (h : s.Booked) (op : Hand) : (op.apply s).Booked := by
  cases op with
  | mergeInto n m => exact h.mergeInto n m
  | unify a b => exact h.unify a b
  | dequeue =>
    obtain ⟨w, heq⟩ := Hand.apply_dequeue s
    rw [heq]
    exact h
  | _ => exact h

/-- **Every step counts the merges that it makes.** -/
theorem step (h : s.Booked) (hv : s.Valid) (hstep : Step L s t) : t.Booked := by
  cases hstep with
  | note hmerges => exact hmerges.trans h
  | hand op _ => exact h.hand op
  | pop hd =>
    obtain ⟨_, _, -, -, rfl⟩ := dequeue?_cases hd
    exact h
  | treat hrep => exact h.treat hv hrep
  | wiring hw _ _ =>
    unfold Booked
    rw [hw.frame.merges, hw.frame.classes]
    exact h
  | _ => exact h

end Booked

theorem booked_ofProblem {p : Problem} (h : ofProblem p = .ok s) : s.Booked := by
  obtain ⟨-, -, rfl⟩ := ofProblem_eq_ok h
  rfl

/-! ## The snapshot -/

/-- **A snapshot lists the table of representatives**, if no class reaches beyond the graph. -/
theorem representatives_freeze (hflat : s.classes.Flat) (hg : s.Grounded) :
    s.freeze.representatives = s.classes.representatives := by
  refine Std.ExtTreeMap.ext_getElem? fun n => ?_
  rw [getElem?_representatives_freeze, hflat.getElem?_representatives]
  by_cases hself : s.representative n = n
  · have hfind : s.classes.find n = n := hself
    rw [if_neg fun h => h.2 hself, if_pos hfind]
  · have hfind : ¬ s.classes.find n = n := hself
    rw [if_pos ⟨ConstraintGraph.mem_nodeIds.mpr (hg n hself).1, hself⟩, if_neg hfind,
      representative]

/-- **All counts of merges agree, and so do all counts of classes**; the difference of nodes and
merges is exact. -/
structure Accounted (s : Solver) : Prop where
  counted : s.counters.merges = s.classes.mergeCount
  listed : s.classes.mergeCount = s.classes.mergedNodeCount
  frozen : s.classes.mergedNodeCount = s.freeze.stats.mergedNodes
  classes : s.classes.countClasses s.graph.nodeIds = s.freeze.stats.equivalenceClasses
  merges_le : s.counters.merges ≤ s.graph.nodeCount
  difference : s.freeze.stats.equivalenceClasses = s.graph.nodeCount - s.counters.merges

/-- The accounts follow from the books, the flat table, and classes within the graph. -/
theorem Booked.accounted (h : s.Booked) (hflat : s.classes.Flat) (hg : s.Grounded) :
    s.Accounted := by
  have hlisted : s.classes.mergeCount = s.classes.mergedNodeCount := hflat.size.symm
  have hfrozen : s.freeze.stats.mergedNodes = s.classes.mergedNodeCount :=
    congrArg Std.ExtTreeMap.size (representatives_freeze hflat hg)
  have hclasses : s.freeze.stats.equivalenceClasses =
      s.graph.nodeIds.length - s.freeze.stats.mergedNodes := rfl
  have hsum : s.classes.countClasses s.graph.nodeIds + s.classes.mergedNodeCount =
      s.graph.nodeCount := by
    refine hflat.countClasses_add_mergedNodeCount fun m hm => ?_
    obtain ⟨hnode, hrep⟩ := hg m hm
    exact ⟨ConstraintGraph.hasNode_iff.mp hnode, ConstraintGraph.hasNode_iff.mp hrep⟩
  have hmerges : s.counters.merges = s.classes.mergedNodeCount := Eq.trans h hlisted
  rw [ConstraintGraph.nodeIds, List.length_range, hfrozen] at hclasses
  refine ⟨h, hlisted, hfrozen.symm, ?_, ?_, ?_⟩ <;> omega

end Solver

/-! ## Histories -/

open Solver

/-- **An operation is placed** when the nodes that it acts on by hand are nodes of the graph. The
objects and sets that it adds, call sites and functions may be anything. -/
def Operation.Placed (s : Solver) : Operation → Prop
  | .hand op => ∀ n ∈ op.places, s.graph.hasNode n = true
  | _ => True

/-- What placed operations may do. -/
def Licence.placed : Licence where
  hand s op := Operation.Placed s (.hand op)
  copy _ _ _ := True
  allocate _ _ := True

theorem Operation.Placed.licensed {s : Solver} {op : Operation} (h : op.Placed s) :
    op.Licensed .placed s := by
  refine ⟨?_, fun _ _ => trivial, fun _ => trivial⟩
  rintro op rfl
  exact h

theorem Operation.Proper.placed {s : Solver} {op : Operation} (h : op.Proper s) : op.Placed s := by
  cases op with
  | hand op => exact h.1
  | _ => trivial

variable {p : Problem} {s : Solver}

theorem Governed.accounted (hp : p.Made) (h : Governed Operation.Placed p s) : s.Accounted := by
  have hL : Licence.analysis ≤ .placed := ⟨fun h => h.elim, fun _ => trivial, fun _ => trivial⟩
  have hanchored : Licence.placed.Anchored := fun hop n hn =>
    hop n (Hand.mem_places_of_mem_merges hn)
  have hbooked : s.Booked := h.keeps hp hL (fun hop => hop.licensed) booked_ofProblem
    fun hs hstep hbooked => hbooked.step hs.valid hstep
  have hseated : s.Seated := h.keeps hp hL (fun hop => hop.licensed) seated_ofProblem
    fun hs hstep hseated => hseated.step hs.valid hanchored hstep
  have hflat := (h.reachable.gathered hp ClassEdges.Part.lasts_loads).classes
  exact hbooked.accounted hflat hseated.grounded

/-- **All counts agree** after every history in which operations by hand act on nodes of the graph.
After an analysis that does not fail, with any source of call targets, the classes that it counted
are that number as well. -/
theorem accounted_of_governed (hp : p.Made) (h : Governed Operation.Placed p s) :
    s.Accounted ∧ ∀ {σ : Type} (a : Analysis σ), a.solver = s → a.run.2 = .ok () →
      a.run.1.solver.Accounted ∧
        a.run.1.solver.counters.equivalenceClasses =
          a.run.1.solver.classes.countClasses a.run.1.solver.graph.nodeIds := by
  refine ⟨h.accounted hp, ?_⟩
  rintro σ a rfl hok
  have hrun : Governed Operation.Placed p a.run.1.solver :=
    .apply (.analyze a.source a.memory) h trivial
  obtain ⟨b, rounds, -, hfinish⟩ := Analysis.run_eq_ok hok
  refine ⟨hrun.accounted hp, ?_⟩
  rw [hfinish]
  rfl

/-- The sample history with its source of call targets. -/
def sampleAnalysis : Analysis Unit := ⟨sampleHistory, .builtin, ()⟩

/-- One merge by hand and seven by the analysis, which adds two nodes to the twelve of the graph. -/
theorem accounted_sampleHistory :
    sampleAnalysis.run.1.solver.counters.merges = 8 ∧
      sampleAnalysis.run.1.solver.graph.nodeCount = 14 ∧
      sampleAnalysis.run.1.solver.counters.equivalenceClasses = 6 ∧
      sampleHistory.Accounted ∧ sampleAnalysis.run.1.solver.Accounted := by
  have hok : sampleAnalysis.run.2 = .ok () := by decide +kernel
  have hplaced : Governed Operation.Placed sampleProblem sampleHistory :=
    governed_sampleHistory.mono fun h => h.placed
  obtain ⟨hbefore, hafter⟩ := accounted_of_governed sampleProblem_made hplaced
  exact ⟨by decide +kernel, by decide +kernel, by decide +kernel, hbefore,
    (hafter sampleAnalysis rfl hok).1⟩

end PointsTo
