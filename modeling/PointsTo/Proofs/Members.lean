import PointsTo.Proofs.Gathered
import PointsTo.Proofs.Snapshot

/-!
# Members of a class, live and frozen

The solver lists the members of a class from its table of classes. A snapshot is filled from the
annotations instead, with what each representative subsumes. Merging keeps the two alike, since it
hands annotations on with the classes. A record by hand does not: a node that is recorded under a
representative is listed by every later snapshot, whether or not it ever joins the class.

An operation that records nothing merges classes and does nothing else to them, so the annotations
after a history follow from the records made in it.

## Main definitions

* `Partition.Coarsens`: one partition comes from another by merging classes
* `Operation.RecordsNothing`: an operation records nothing by hand
* `Solver.RecordedIn`: what a history has recorded under representatives
* `Solver.ListsMembers`: how a class is listed after a history, live and frozen

## Main results

* `coarsens_step`: a step that records nothing merges classes, if anything
* `annotatedBy_after`: what the annotations hold after a history
* `members_freeze`: a snapshot lists what the representative subsumes
* `listsMembers_after`: how classes are listed after any history
* `recorded_node_only_frozen`: a recorded node is listed by the snapshot alone
-/

namespace PointsTo

namespace Partition

variable {p q r : Partition} {R : NodeId → NodeId → Prop}

/-- The second partition comes from the first one by merging classes. -/
inductive Coarsens (p : Partition) : Partition → Prop
  | refl : Coarsens p p
  | absorb {q : Partition} {lost survivor : NodeId} : Coarsens p q → q.find lost = lost →
      q.find survivor = survivor → lost ≠ survivor → Coarsens p (q.absorb lost survivor)

namespace Coarsens

theorem trans (h₁ : p.Coarsens q) (h₂ : q.Coarsens r) : p.Coarsens r := by
  induction h₂ with
  | refl => exact h₁
  | absorb _ hlost hsurvivor hne ih => exact ih.absorb hlost hsurvivor hne

theorem valid (h : p.Coarsens q) (hp : p.Valid) : q.Valid := by
  induction h with
  | refl => exact hp
  | absorb _ hlost hsurvivor hne ih => exact ih.absorb hlost hsurvivor hne

theorem annotatedBy (h : p.Coarsens q) (hp : p.Valid) (hR : p.AnnotatedBy R) :
    q.AnnotatedBy R := by
  induction h with
  | refl => exact hR
  | absorb hpq hlost hsurvivor _ ih => exact ih.absorb (hpq.valid hp) hlost hsurvivor

end Coarsens

end Partition

/-- An operation records nothing by hand. -/
def Operation.RecordsNothing (op : Operation) : Prop := ∀ n x, op ≠ .hand (.subsume n x)

namespace Solver

variable {s t start : Solver} {R : NodeId → NodeId → Prop} {a b n x rep lost survivor : NodeId}
  {ops : List Operation} {op : Operation}

/-! ## Classes along steps -/

theorem Joinable.coarsens (h : s.Joinable a b lost survivor) (hv : s.classes.Valid) :
    s.classes.Coarsens (s.join lost survivor).classes := by
  rw [join_eq]
  exact .absorb .refl (h.lost_eq hv) (h.survivor_eq hv) h.ne

theorem coarsens_unify (hv : s.classes.Valid) (a b : NodeId) :
    s.classes.Coarsens (s.unify a b).1.classes := by
  rcases s.unify_cases a b with ⟨-, heq⟩ | ⟨lost, survivor, hjoin, heq⟩
  · rw [heq]
    exact .refl
  · rw [heq]
    exact hjoin.coarsens hv

theorem coarsens_mergeInto (hv : s.classes.Valid) (a b : NodeId) :
    s.classes.Coarsens (s.mergeInto a b).1.classes := by
  rcases s.mergeInto_cases a b with ⟨-, heq⟩ | ⟨hjoin, heq⟩
  · rw [heq]
    exact .refl
  · rw [heq]
    exact hjoin.coarsens hv

theorem Joins.coarsens (h : Joins R s t) (hv : s.classes.Valid) :
    s.classes.Coarsens t.classes := by
  induction h with
  | refl => exact .refl
  | @tail t counters a b _ _ _ ih =>
    have hcounted : { t with counters }.classes.Valid := ih.valid hv
    exact ih.trans (coarsens_unify hcounted a b)

theorem coarsens_treat (hv : s.Valid) (hrep : s.representative rep = rep) :
    s.classes.Coarsens (s.treat rep).1.classes := by
  obtain ⟨edges, loaded, held, -, hjoins⟩ := joins_treat hv hrep
  exact hjoins.coarsens hv.classes

theorem coarsens_hand (hv : s.classes.Valid) {op : Hand}
    (hop : (Operation.hand op).RecordsNothing) : s.classes.Coarsens (op.apply s).classes := by
  cases op with
  | mergeInto a b => exact coarsens_mergeInto hv a b
  | unify a b => exact coarsens_unify hv a b
  | subsume n x => exact absurd rfl (hop n x)
  | dequeue =>
    obtain ⟨w, heq⟩ := Hand.apply_dequeue s
    rw [heq]
    exact .refl
  | addObject _ _ | addObjects _ _ | addObjectsOf _ _ | enqueue _ => exact .refl

/-- **A step that records nothing merges classes**, if anything. -/
theorem coarsens_step (hv : s.Valid) (h : Step (.following fun _ op => op.RecordsNothing) s t) :
    s.classes.Coarsens t.classes := by
  cases h with
  | hand op hop => exact coarsens_hand hv.classes hop
  | treat hrep => exact coarsens_treat hv hrep
  | pop hd =>
    obtain ⟨_, _, -, -, rfl⟩ := dequeue?_cases hd
    exact .refl
  | wiring hw _ _ =>
    rw [hw.frame.classes]
    exact .refl
  | note _ | address _ _ _ | seeded _ | wait _ | callee _ _ _ | record _ => exact .refl

theorem coarsens_apply (hs : s.Coherent) (hop : op.RecordsNothing) :
    s.classes.Coarsens (op.apply s).classes := by
  have hlicensed : op.Licensed (.following fun _ op => op.RecordsNothing) s :=
    Operation.licensed_following hop
  have hsteps := hlicensed.steps (Licence.analysis_le_following _) hs
  refine hsteps.keeps (I := fun t => s.classes.Coarsens t.classes) hs ?_ .refl
  exact fun ht hstep hst => hst.trans (coarsens_step ht.valid hstep)

/-! ## Records of a history -/

/-- During the operations `x` was recorded under `b` while `b` represented its class. -/
def RecordedIn (start : Solver) (ops : List Operation) (b x : NodeId) : Prop :=
  ∃ before after, ops = before ++ .hand (.subsume b x) :: after ∧
    (start.after before).representative b = b

theorem recordedIn_append (start : Solver) (ops : List Operation) (op : Operation) (b x : NodeId) :
    start.RecordedIn (ops ++ [op]) b x ↔
      start.RecordedIn ops b x ∨
        (op = .hand (.subsume b x) ∧ (start.after ops).representative b = b) := by
  simp only [RecordedIn, Partition.append_singleton_eq_append_cons]
  constructor
  · rintro ⟨before, after, ⟨rfl, rfl, rfl⟩ | ⟨init, rfl, rfl⟩, hrep⟩
    · exact .inr ⟨rfl, hrep⟩
    · exact .inl ⟨before, init, rfl, hrep⟩
  · rintro (⟨before, init, rfl, hrep⟩ | ⟨rfl, hrep⟩)
    · exact ⟨before, init ++ [op], .inr ⟨init, rfl, rfl⟩, hrep⟩
    · exact ⟨ops, [], .inl ⟨rfl, rfl, rfl⟩, hrep⟩

end Solver

open Solver

variable {p : Problem} {s start : Solver} {n : NodeId}

/-- **After a history a representative subsumes its class** and what was recorded under a member
that represented its class at that time. -/
theorem annotatedBy_after (hp : p.Made) (hstart : ofProblem p = .ok start) (ops : List Operation) :
    (start.after ops).classes.AnnotatedBy (start.RecordedIn ops) := by
  induction ops using List.reverseRecOn with
  | nil =>
    obtain ⟨-, -, rfl⟩ := ofProblem_eq_ok hstart
    exact Partition.annotatedBy_empty fun c x h => by simp [RecordedIn] at h
  | append_singleton ops op ih =>
    rw [after_append_singleton]
    have hcoherent := ((Reachable.start hstart).after ops).coherent hp
    by_cases hrecord : ∃ b x, op = .hand (.subsume b x)
    · obtain ⟨b, x, rfl⟩ := hrecord
      have hrecords : start.RecordedIn (ops ++ [.hand (.subsume b x)]) = fun c y =>
          start.RecordedIn ops c y ∨ (c = b ∧ y = x ∧ (start.after ops).classes.find c = c) := by
        funext c y
        simp [recordedIn_append, and_assoc, eq_comm, representative]
      rw [hrecords]
      exact ih.subsume b x
    · have hother : op.RecordsNothing := fun b x heq => hrecord ⟨b, x, heq⟩
      have hrecords : start.RecordedIn (ops ++ [op]) = start.RecordedIn ops := by
        funext b x
        exact propext ((recordedIn_append start ops op b x).trans
          (or_iff_left fun h => hother b x h.1))
      rw [hrecords]
      exact (coarsens_apply hcoherent hother).annotatedBy hcoherent.valid.classes ih

/-! ## The listing of a snapshot -/

theorem Solver.getElem?_classes_freeze (s : Solver) (r : NodeId) :
    s.freeze.classes[r]? =
      if r ∈ (s.classes.representativesOf s.graph.nodeIds).toList ∧
        ¬ (s.classes.subsumed r).size ≤ 1 then some (s.classes.subsumed r) else none :=
  (getElem?_foldl_insert (fun r => (s.classes.subsumed r).size ≤ 1) s.classes.subsumed
    (s.classes.representativesOf s.graph.nodeIds).toList ∅ r).trans
    (by rw [Std.ExtTreeMap.getElem?_empty])

/-- **A snapshot lists what the representative subsumes**; a class of one node is told without an
entry. -/
theorem Solver.members_freeze (hn : s.graph.hasNode n = true) :
    s.freeze.members n = s.classes.subsumed (s.representative n) := by
  have hrep := mem_representativesOf_nodeIds.mpr ⟨n, hn, rfl⟩
  rw [Snapshot.members, representative_freeze hn, Std.ExtTreeMap.getD_eq_getD_getElem?,
    getElem?_classes_freeze]
  by_cases hsize : (s.classes.subsumed (s.representative n)).size ≤ 1
  · rw [if_neg fun h => h.2 hsize, Option.getD_none]
    exact (IdSet.eq_singleton_of_size_le hsize ((IdSet.mem_insert _ _ _).mpr (.inl rfl))).symm
  · rw [if_pos ⟨hrep, hsize⟩, Option.getD_some]

/-- **How the class of a node is listed after a history**, by the solver and by a snapshot. -/
structure Solver.ListsMembers (start : Solver) (ops : List Operation) (n : NodeId) : Prop where
  /-- Both list nodes in ascending order. -/
  ascending : ((start.after ops).classMembers n).Ascending ∧
    ((start.after ops).freeze.members n).Ascending
  /-- The solver lists the nodes with the same representative. -/
  live : ∀ x, x ∈ (start.after ops).classMembers n ↔
    (start.after ops).representative x = (start.after ops).representative n
  /-- The snapshot lists these, and what was recorded under one of them while it represented its
  class. -/
  frozen : ∀ x, x ∈ (start.after ops).freeze.members n ↔
    (start.after ops).representative x = (start.after ops).representative n ∨
      ∃ b, start.RecordedIn ops b x ∧
        (start.after ops).representative b = (start.after ops).representative n
  /-- The two agree exactly if all that was recorded so has joined the class. -/
  agree : (start.after ops).freeze.members n = (start.after ops).classMembers n ↔
    ∀ b x, start.RecordedIn ops b x →
      (start.after ops).representative b = (start.after ops).representative n →
        (start.after ops).representative x = (start.after ops).representative n

/-- **Live and frozen listings differ by what was recorded by hand.** After any history of
operations, and for every node of the graph, the solver lists exactly the nodes with the same
representative, and a snapshot lists these together with what was recorded under a member while it
represented its class. Like all results it is about graphs of at most `Id.bound` nodes. -/
theorem listsMembers_after (hp : p.Made) (hstart : ofProblem p = .ok start) (ops : List Operation)
    (hn : (start.after ops).graph.hasNode n = true) : start.ListsMembers ops n := by
  have hreachable := (Reachable.start hstart).after ops
  have hflat := (hreachable.gathered hp ClassEdges.Part.lasts_loads).classes
  have hannotated := annotatedBy_after hp hstart ops
  have hmembers := members_freeze hn
  have hlive : ∀ x, x ∈ (start.after ops).classMembers n ↔
      (start.after ops).representative x = (start.after ops).representative n :=
    hflat.mem_classMembers n
  have hfrozen : ∀ x, x ∈ (start.after ops).freeze.members n ↔
      (start.after ops).representative x = (start.after ops).representative n ∨
        ∃ b, start.RecordedIn ops b x ∧
          (start.after ops).representative b = (start.after ops).representative n := by
    intro x
    rw [hmembers]
    refine (hannotated.mem_subsumed (hflat.find_find n)).trans ?_
    constructor
    · rintro ⟨c, hc, rfl | hrecorded⟩
      · exact .inl hc
      · exact .inr ⟨c, hrecorded, hc⟩
    · rintro (hx | ⟨b, hrecorded, hb⟩)
      · exact ⟨x, hx, .inl rfl⟩
      · exact ⟨b, hb, .inr hrecorded⟩
  have hascending : ((start.after ops).classMembers n).Ascending ∧
      ((start.after ops).freeze.members n).Ascending := by
    rw [hmembers]
    exact ⟨IdSet.ascending_ofList _, IdSet.ascending_insert (hannotated.ascending _) _⟩
  refine ⟨hascending, hlive, hfrozen, fun heq b x hrecorded hb => ?_, fun hjoined => ?_⟩
  · rw [← hlive, ← heq]
    exact (hfrozen x).mpr (.inr ⟨b, hrecorded, hb⟩)
  · refine IdSet.eq_of_mem_iff hascending.2 hascending.1 fun x => ?_
    rw [hfrozen, hlive]
    refine or_iff_left_of_imp ?_
    rintro ⟨b, hrecorded, hb⟩
    exact hjoined b x hrecorded hb

/-- In the sample 9 is recorded under 2, whose class then takes in 5: the snapshot lists 9 with
both. -/
theorem listsMembers_after_sample :
    (sampleSolver.after [.hand (.subsume 2 9), .hand (.mergeInto 5 2)]).freeze.members 5 =
        .ofList [2, 5, 9] ∧
      sampleSolver.ListsMembers [.hand (.subsume 2 9), .hand (.mergeInto 5 2)] 5 :=
  ⟨by decide +kernel,
    listsMembers_after sampleProblem_made ofProblem_sampleProblem _ (by decide +kernel)⟩

/-- Two nodes and nothing else. -/
def pairProblem : Problem where
  graph := .ofKinds [.value, .value]

/-- **A recorded node is listed by the snapshot alone**: when 1 is recorded under 0, the solver goes
on to list 0 only. -/
theorem recorded_node_only_frozen :
    ∃ start, ofProblem pairProblem = .ok start ∧
      (start.after [.hand (.subsume 0 1)]).classMembers 0 = .ofList [0] ∧
      (start.after [.hand (.subsume 0 1)]).freeze.members 0 = .ofList [0, 1] := by
  refine ⟨_, rfl, ?_, ?_⟩ <;> decide +kernel

end PointsTo
