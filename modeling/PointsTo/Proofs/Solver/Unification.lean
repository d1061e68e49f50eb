import PointsTo.Proofs.Solver.Valid
import PointsTo.Solver.Propagate

/-!
# Sequences of unifications

Applying the constraints of a class unifies pairs of nodes, one after the other, and counts them.
`Joins R` relates two states when the second one comes from the first by unifying pairs of `R`;
every property of such a sequence follows from that of a single unification.

## Main definitions

* `Solver.Waiting`: the class of a node waits to be treated
* `Solver.Unmoved`: the class of a node is as it was
* `Solver.Noticed`: the class of a node is as it was, or waits
* `Solver.Frame`: what solving leaves alone
* `Solver.Joins`: unifying pairs of a relation, one after the other
* `Solver.pressure`: a bound on the steps of a drain

## Main results

* `Noticed.joins`: a class that does not wait afterwards is as it was
* `Joins.pressure_le`: waiting classes and classes together do not grow
-/

namespace PointsTo

/-- The counters, the numbers of processed edges left out. -/
def Counters.outcome (c : Counters) : Counters :=
  { c with
    addrEdgesProcessed := 0
    copyEdgesProcessed := 0
    gepEdgesProcessed := 0
    loadEdgesProcessed := 0
    storeEdgesProcessed := 0 }

namespace Solver

variable {s t u : Solver} {R R' : NodeId → NodeId → Prop} {held : ClassEdges}
  {n m a b x y o : NodeId}

/-! ## Waiting classes -/

/-- The class of `n` waits to be treated. -/
def Waiting (s : Solver) (n : NodeId) : Prop := ∃ w ∈ s.worklist.toList, s.Same w n

theorem Waiting.same (h : s.Waiting n) (hnm : s.Same n m) : s.Waiting m := by
  obtain ⟨w, hw, hwn⟩ := h
  exact ⟨w, hw, hwn.trans hnm⟩

/-- A class that is made to wait does so. -/
theorem waiting_enqueue (hw : s.worklist.Valid) (hc : s.classes.Valid) (n : NodeId) :
    (s.enqueue n).1.Waiting n :=
  ⟨s.representative n, (Worklist.mem_push hw).mpr (.inl rfl), (same_representative hc n).symm⟩

theorem Waiting.enqueue (h : s.Waiting n) (hw : s.worklist.Valid) (m : NodeId) :
    (s.enqueue m).1.Waiting n := by
  obtain ⟨w, hmem, hwn⟩ := h
  exact ⟨w, (Worklist.mem_push hw).mpr (.inr hmem), hwn⟩

/-! ## Classes that are left alone -/

/-- **The class of `n` is as it was**, and so are the constraints of `n`; elsewhere classes may have
merged and nodes been added. The set is only looked at where the graph has the representative, as
fresh nodes come with sets of their own. -/
structure Unmoved (s t : Solver) (n : NodeId) : Prop where
  same : ∀ {x y}, s.Same x y → t.Same x y
  nodeCount : s.graph.nodeCount ≤ t.graph.nodeCount
  representative : t.representative n = s.representative n
  pointsTo : s.graph.hasNode (s.representative n) = true →
    ∀ o, o ∈ t.pointsTo n ↔ o ∈ s.pointsTo n
  edges : t.edgesOf (s.representative n) = s.edgesOf (s.representative n)
  loaded : t.loaded.contains n = s.loaded.contains n
  constraints : t.graph.edgesAt n = s.graph.edgesAt n

/-- What waits, what is counted, recorded and reported is no part of a class. -/
theorem Unmoved.aside (s : Solver) (n : NodeId) {worklist : Worklist} {seeded : Bool}
    {calls : CallGraph} {counters : Counters} {journal : List Event} :
    s.Unmoved { s with worklist, seeded, calls, counters, journal } n :=
  ⟨id, Nat.le_refl _, rfl, fun _ _ => Iff.rfl, rfl, rfl, rfl⟩

theorem Unmoved.refl (s : Solver) (n : NodeId) : s.Unmoved s n := .aside s n

theorem Unmoved.hasNode (h : s.Unmoved t n) (hm : s.graph.hasNode m = true) :
    t.graph.hasNode m = true := by
  rw [ConstraintGraph.hasNode_iff] at hm ⊢
  exact Nat.lt_of_lt_of_le hm h.nodeCount

theorem Unmoved.trans (h₁ : s.Unmoved t n) (h₂ : t.Unmoved u n) : s.Unmoved u n where
  same h := h₂.same (h₁.same h)
  nodeCount := h₁.nodeCount.trans h₂.nodeCount
  representative := h₂.representative.trans h₁.representative
  pointsTo hnode o := by
    have hnode' := h₁.hasNode hnode
    rw [← h₁.representative] at hnode'
    exact (h₂.pointsTo hnode' o).trans (h₁.pointsTo hnode o)
  edges := by
    have h := h₂.edges
    rw [h₁.representative] at h
    exact h.trans h₁.edges
  loaded := h₂.loaded.trans h₁.loaded
  constraints := h₂.constraints.trans h₁.constraints

/-- **Nothing happens to a class unnoticed**: the class of `n` goes on waiting if it did, and it
waits or is as it was. -/
structure Noticed (s t : Solver) (n : NodeId) : Prop where
  waiting : s.Waiting n → t.Waiting n
  unmoved : t.Waiting n ∨ s.Unmoved t n

theorem Noticed.trans (h₁ : s.Noticed t n) (h₂ : t.Noticed u n) : s.Noticed u n := by
  refine ⟨fun h => h₂.waiting (h₁.waiting h), ?_⟩
  rcases h₁.unmoved with hw | hst
  · exact .inl (h₂.waiting hw)
  · exact h₂.unmoved.imp_right hst.trans

/-- A state in which the same classes wait, and more perhaps. -/
theorem Noticed.aside (s : Solver) (n : NodeId) {worklist : Worklist} {seeded : Bool}
    {calls : CallGraph} {counters : Counters} {journal : List Event}
    (h : ∀ w ∈ s.worklist.toList, w ∈ worklist.toList) :
    s.Noticed { s with worklist, seeded, calls, counters, journal } n := by
  refine ⟨?_, .inr (.aside s n)⟩
  rintro ⟨w, hw, hwn⟩
  exact ⟨w, h w hw, hwn⟩

theorem Noticed.refl (s : Solver) (n : NodeId) : s.Noticed s n := ⟨id, .inr (.refl s n)⟩

/-! ## Frames -/

/-- What solving leaves alone: the graph, the calls and what was given. -/
structure Frame (s t : Solver) : Prop where
  settings : t.settings = s.settings
  graph : t.graph = s.graph
  outsideAddresses : t.outsideAddresses = s.outsideAddresses
  functions : t.functions = s.functions
  sites : t.sites = s.sites
  calls : t.calls = s.calls
  allocations : t.allocations = s.allocations
  rounds : t.counters.callGraphRounds = s.counters.callGraphRounds
  callEdges : t.counters.indirectCallEdges = s.counters.indirectCallEdges
  dummies : t.counters.dummyObjects = s.counters.dummyObjects
  seeded : t.seeded = s.seeded

namespace Frame

theorem refl (s : Solver) : s.Frame s := ⟨rfl, rfl, rfl, rfl, rfl, rfl, rfl, rfl, rfl, rfl, rfl⟩

theorem trans (h₁ : s.Frame t) (h₂ : t.Frame u) : s.Frame u where
  settings := h₂.settings.trans h₁.settings
  graph := h₂.graph.trans h₁.graph
  outsideAddresses := h₂.outsideAddresses.trans h₁.outsideAddresses
  functions := h₂.functions.trans h₁.functions
  sites := h₂.sites.trans h₁.sites
  calls := h₂.calls.trans h₁.calls
  allocations := h₂.allocations.trans h₁.allocations
  rounds := h₂.rounds.trans h₁.rounds
  callEdges := h₂.callEdges.trans h₁.callEdges
  dummies := h₂.dummies.trans h₁.dummies
  seeded := h₂.seeded.trans h₁.seeded

theorem join (s : Solver) (lost survivor : NodeId) : s.Frame (s.join lost survivor) := by
  rw [join_eq]
  exact ⟨rfl, rfl, rfl, rfl, rfl, rfl, rfl, rfl, rfl, rfl, rfl⟩

theorem enqueue (s : Solver) (n : NodeId) : s.Frame (s.enqueue n).1 :=
  ⟨rfl, rfl, rfl, rfl, rfl, rfl, rfl, rfl, rfl, rfl, rfl⟩

theorem unify (s : Solver) (a b : NodeId) : s.Frame (s.unify a b).1 := by
  rcases s.unify_cases a b with ⟨-, heq⟩ | ⟨lost, survivor, -, heq⟩
  · rw [heq]
    exact refl s
  · rw [heq]
    exact (join s lost survivor).trans (enqueue _ survivor)

/-- Counting processed edges is no part of the frame. -/
theorem count (s : Solver) {counters : Counters} (h : counters.outcome = s.counters.outcome) :
    s.Frame { s with counters } := by
  have hrounds := congrArg Counters.callGraphRounds h
  have hedges := congrArg Counters.indirectCallEdges h
  have hdummies := congrArg Counters.dummyObjects h
  exact ⟨rfl, rfl, rfl, rfl, rfl, rfl, rfl, hrounds, hedges, hdummies, rfl⟩

end Frame

/-! ## One unification -/

theorem Same.unify (hv : s.classes.Valid) (h : s.Same x y) (a b : NodeId) :
    (s.unify a b).1.Same x y := by
  rcases s.unify_cases a b with ⟨-, heq⟩ | ⟨lost, survivor, hj, heq⟩
  · rwa [heq]
  · rw [heq]
    exact h.join hv (hj.lost_eq hv) survivor

theorem same_unify (hv : s.classes.Valid) (a b : NodeId) : (s.unify a b).1.Same a b := by
  rcases s.unify_cases a b with ⟨hab, heq⟩ | ⟨lost, survivor, hj, heq⟩
  · rwa [heq]
  · rw [heq]
    exact hj.same hv

theorem Waiting.unify (hv : s.ValidBut held) (h : s.Waiting n) (a b : NodeId) :
    (s.unify a b).1.Waiting n := by
  obtain ⟨w, hw, hwn⟩ := h
  refine ⟨w, ?_, hwn.unify hv.classes a b⟩
  rcases s.unify_cases a b with ⟨-, heq⟩ | ⟨lost, survivor, hj, heq⟩
  · rwa [heq]
  · rw [heq]
    refine (Worklist.mem_push ?_).mpr (.inr ?_)
    · exact (hv.join hj).worklist
    · rwa [join_eq]

/-- A merge leaves alone what waits at a third class. -/
theorem edgesOf_join (s : Solver) (hv : s.classes.Valid) {lost survivor r : NodeId}
    (hj : s.Joinable a b lost survivor) (hlost : r ≠ lost) (hsurvivor : r ≠ survivor) :
    (s.join lost survivor).edgesOf r = s.edgesOf r := by
  have hrep := representative_relabel hv (hj.lost_eq hv) survivor
  have hsurvives : (s.relabel lost survivor).representative lost = survivor := by
    rw [hrep, if_pos (hj.lost_eq hv)]
  have hloaded : ((s.relabel lost survivor).loadEdges lost).representative survivor = survivor := by
    rw [loadEdges_eq]
    exact (hrep survivor).trans (by rw [hj.survivor_eq hv, if_neg hj.ne.symm])
  change (((s.relabel lost survivor).loadEdges lost).loadEdges survivor).edgesOf r = _
  rw [edgesOf_loadEdges, hloaded, if_neg fun h => hsurvivor h.1, edgesOf_loadEdges, hsurvives,
    if_neg fun h => hsurvivor h.1, edgesOf_relabel s hj.ne, if_neg hsurvivor, if_neg hlost]

/-- **After a unification a class waits, or is as it was.** If it takes part in the merge, the
survivor was made to wait; any other class keeps its representative, and with it its set and its
constraints. -/
theorem waiting_or_unmoved_unify (hv : s.ValidBut held) (a b n : NodeId) :
    (s.unify a b).1.Waiting n ∨ s.Unmoved (s.unify a b).1 n := by
  have hsame : ∀ {x y}, s.Same x y → (s.unify a b).1.Same x y := fun h =>
    h.unify hv.classes a b
  rcases s.unify_cases a b with ⟨-, heq⟩ | ⟨lost, survivor, hj, heq⟩
  · rw [heq]
    exact .inr (.refl s n)
  · have hlost := hj.lost_eq hv.classes
    have hsurvivor := hj.survivor_eq hv.classes
    have hrep := representative_join hv.classes hlost survivor
    rw [heq] at hsame ⊢
    by_cases hn : s.representative n = lost ∨ s.representative n = survivor
    · left
      have hwait := waiting_enqueue (hv.join hj).worklist (hv.join hj).classes survivor
      refine hwait.same ?_
      change (s.join lost survivor).representative survivor =
        (s.join lost survivor).representative n
      rw [hrep, hrep, hsurvivor, if_neg hj.ne.symm]
      rcases hn with hn | hn
      · rw [if_pos hn]
      · rw [hn, if_neg hj.ne.symm]
    · rw [not_or] at hn
      have hn' : (s.join lost survivor).representative n = s.representative n := by
        rw [hrep, if_neg hn.1]
      refine .inr ⟨hsame, ?_, hn', fun _ o => ?_, edgesOf_join s hv.classes hj hn.1 hn.2, ?_, ?_⟩
      · rw [(Frame.enqueue _ survivor).graph, (Frame.join s lost survivor).graph]
      · change o ∈ (s.join lost survivor).store.get ((s.join lost survivor).representative n) ↔ _
        rw [hn', mem_get_join s hj.ne, if_neg hn.2]
        simp [hn.1, mem_pointsTo]
      · change (s.join lost survivor).loaded.contains n = s.loaded.contains n
        rw [Bool.eq_iff_iff, loaded_join]
        refine ⟨?_, fun h => .inr (.inr h)⟩
        rintro (rfl | rfl | h)
        · exact absurd hsurvivor hn.2
        · exact absurd hlost hn.1
        · exact h
      · rw [(Frame.enqueue _ survivor).graph, (Frame.join s lost survivor).graph]

theorem Noticed.unify (hv : s.ValidBut held) (a b n : NodeId) : s.Noticed (s.unify a b).1 n :=
  ⟨fun h => h.unify hv a b, waiting_or_unmoved_unify hv a b n⟩

/-! ## Sequences -/

/-- **Unifying pairs of `R`, one after the other**, counting edges in between. -/
inductive Joins (R : NodeId → NodeId → Prop) (s : Solver) : Solver → Prop
  | refl : Joins R s s
  | tail {t : Solver} {counters : Counters} {a b : NodeId} :
      Joins R s t → counters.outcome = t.counters.outcome → R a b →
        Joins R s ({ t with counters }.unify a b).1

namespace Joins

theorem trans (h₁ : Joins R s t) (h₂ : Joins R t u) : Joins R s u := by
  induction h₂ with
  | refl => exact h₁
  | tail _ hc hab ih => exact ih.tail hc hab

theorem mono (hR : ∀ a b, R a b → R' a b) (h : Joins R s t) : Joins R' s t := by
  induction h with
  | refl => exact .refl
  | tail _ hc hab ih => exact ih.tail hc (hR _ _ hab)

/-- A step over each element of a list makes a sequence of the sequences of its steps. -/
theorem foldl {α : Type} {f : Solver → α → Solver} {xs : List α}
    (hf : ∀ s, ∀ x ∈ xs, Joins R s (f s x)) (s : Solver) : Joins R s (xs.foldl f s) := by
  induction xs generalizing s with
  | nil => exact .refl
  | cons x xs ih =>
    have hx := hf s x List.mem_cons_self
    exact hx.trans (ih (fun s y hy => hf s y (List.mem_cons_of_mem x hy)) (f s x))

theorem frame (h : Joins R s t) : s.Frame t := by
  induction h with
  | refl => exact .refl s
  | @tail t counters a b _ hc _ ih => exact (ih.trans (.count t hc)).trans (.unify _ a b)

theorem validBut (h : Joins R s t) (hv : s.ValidBut held) : t.ValidBut held := by
  induction h with
  | refl => exact hv
  | @tail t counters a b _ _ _ ih => exact (ih.count counters).unify a b

theorem same (h : Joins R s t) (hv : s.ValidBut held) (hxy : s.Same x y) : t.Same x y := by
  induction h with
  | refl => exact hxy
  | @tail t counters a b hst _ _ ih =>
    exact Same.unify (s := { t with counters }) (hst.validBut hv).classes ih a b

end Joins

/-- **A class that does not wait afterwards is as it was**, however many pairs are unified. -/
theorem Noticed.joins (h : Joins R s t) (hv : s.ValidBut held) (n : NodeId) : s.Noticed t n := by
  induction h with
  | refl => exact .refl s n
  | @tail t counters a b hst _ _ ih =>
    have hcount : t.Noticed { t with counters } n := .aside t n fun _ => id
    exact (ih.trans hcount).trans (.unify ((hst.validBut hv).count counters) a b n)

/-! ## How long a drain can take -/

/-- The number of waiting classes and of classes that the graph meets: a bound on the steps left. -/
def pressure (s : Solver) : Nat := s.worklist.size + s.classes.countClasses s.graph.nodeIds

/-- Merging classes that the graph meets leaves one class less. -/
theorem Joinable.countClasses {lost survivor : NodeId} (hj : s.Joinable a b lost survivor)
    (hv : s.classes.Valid) (ha : s.graph.hasNode a = true) (hb : s.graph.hasNode b = true) :
    (s.classes.absorb lost survivor).countClasses s.graph.nodeIds + 1 =
      s.classes.countClasses s.graph.nodeIds := by
  have hlost := hj.lost_eq hv
  have hna := ConstraintGraph.mem_nodeIds.mpr ha
  have hnb := ConstraintGraph.mem_nodeIds.mpr hb
  rcases hj.pair with ⟨hl, hs⟩ | ⟨hl, hs⟩
  · exact Partition.countClasses_absorb hv hlost hj.ne hna hnb hl.symm hs.symm
  · exact Partition.countClasses_absorb hv hlost hj.ne hnb hna hl.symm hs.symm

/-- Unifying nodes of the graph makes at most one class wait, and then there is one class less. The
survivor may start to wait, which the class that is gone makes up for. -/
theorem pressure_unify_le (hv : s.ValidBut held) (ha : s.graph.hasNode a = true)
    (hb : s.graph.hasNode b = true) : (s.unify a b).1.pressure ≤ s.pressure := by
  rcases s.unify_cases a b with ⟨-, heq⟩ | ⟨lost, survivor, hj, heq⟩
  · rw [heq]
  · have hcount := hj.countClasses hv.classes ha hb
    have hsize := Worklist.size_push_le s.worklist ((s.join lost survivor).representative survivor)
    rw [heq]
    simp only [pressure, Solver.enqueue]
    rw [join_eq] at hsize ⊢
    dsimp only at hsize ⊢
    omega

theorem Joins.pressure_le (h : Joins R s t) (hv : s.ValidBut held)
    (hR : ∀ a b, R a b → s.graph.hasNode a = true ∧ s.graph.hasNode b = true) :
    t.pressure ≤ s.pressure := by
  induction h with
  | refl => exact Nat.le_refl _
  | @tail t counters a b hst _ hab ih =>
    have hvt := (hst.validBut hv).count counters
    have hnodes := hR a b hab
    rw [← hst.frame.graph] at hnodes
    exact (pressure_unify_le hvt hnodes.1 hnodes.2).trans ih

end Solver

end PointsTo
