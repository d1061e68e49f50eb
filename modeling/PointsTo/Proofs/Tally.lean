import PointsTo.Proofs.Contained

/-!
# The tally of merges

Every merge of an analysis takes one class of the graph away, so merges and classes together change
only when the graph does. Fresh memory adds two nodes; it adds at most two classes, and exactly two
in a state that keeps to its graph, where nothing was merged with the fresh nodes before. So there
are never more merges and classes than nodes, and in the second case the number of merges follows
from the classes.

## Main definitions

* `Solver.tally`: merges and classes together
* `Solver.Tallied`: they are as many as nodes

## Main results

* `tally_step`: only fresh memory changes the tally
* `tally_le_of_steps`: in an analysis merges and classes never outnumber the nodes
* `Tallied.steps`: an analysis that keeps to its graph keeps the tally
* `merges_eq`: states with the same classes and nodes have made the same number of merges
-/

namespace PointsTo.Solver

variable {s t : Solver} {held : ClassEdges} {a b rep : NodeId} {F : NodeId → NodeId → Prop}
  {A : SiteId → Prop} {u v : Solver × CopySet}

/-- Merges and classes together. -/
def tally (s : Solver) : Nat := s.counters.merges + s.classes.countClasses s.graph.nodeIds

/-- **Merges and classes are as many as nodes.** -/
def Tallied (s : Solver) : Prop :=
  s.counters.merges + s.classes.countClasses s.graph.nodeIds = s.graph.nodeCount

/-! ## Merging -/

/-- One merge more, one class less. -/
theorem tally_unify (hv : s.classes.Valid) (ha : s.graph.hasNode a = true)
    (hb : s.graph.hasNode b = true) : (s.unify a b).1.tally = s.tally := by
  rcases s.unify_cases a b with ⟨-, heq⟩ | ⟨lost, survivor, hj, heq⟩
  · rw [heq]
  · have hcount := hj.countClasses hv ha hb
    rw [heq]
    change (s.join lost survivor).tally = s.tally
    unfold tally
    rw [join_eq]
    dsimp only
    omega

theorem tally_joins {R : NodeId → NodeId → Prop} (hv : s.ValidBut held)
    (hR : ∀ a b, R a b → s.graph.hasNode a = true ∧ s.graph.hasNode b = true) (hj : Joins R s t) :
    t.tally = s.tally := by
  induction hj with
  | refl => rfl
  | @tail t counters a b hj hc hab ih =>
    have hmerges := congrArg Counters.merges hc
    have hcounted : { t with counters }.tally = t.tally := congrArg (· + _) hmerges
    have hnodes := hR a b hab
    rw [← hj.frame.graph] at hnodes
    have hunify := tally_unify (s := { t with counters }) (hj.validBut hv).classes hnodes.1 hnodes.2
    exact hunify.trans (hcounted.trans ih)

theorem tally_treat (hv : s.Valid) (hrep : s.representative rep = rep) :
    (s.treat rep).1.tally = s.tally := by
  obtain ⟨edges, loaded, held, hvalid, hjoins⟩ := joins_treat hv hrep
  exact tally_joins (s := { s with edges, loaded }) hvalid (fun a b hab => ⟨hab.left, hab.right⟩)
    hjoins

/-! ## Connecting -/

theorem tally_connectCopy (s : Solver) (added : CopySet) (a b : NodeId) :
    (s.connectCopy added a b).1.tally = s.tally ∧
      (s.connectCopy added a b).1.graph.nodeCount = s.graph.nodeCount := by
  rcases s.connectCopy_cases added a b with ⟨heq, -⟩ | ⟨-, -, heq⟩
  · rw [heq]
    exact ⟨rfl, rfl⟩
  · rw [heq]
    exact ⟨rfl, rfl⟩

theorem tally_createAllocation (s : Solver) (i : SiteId) :
    (s.createAllocation i).1.tally =
      s.counters.merges + s.classes.countClasses (List.range (s.graph.nodeCount + 1 + 1)) := by
  unfold tally ConstraintGraph.nodeIds
  rw [nodeCount_createAllocation]
  rfl

/-- A move of the wiring leaves the tally alone or makes memory. -/
theorem tally_wire (hw : Wire F A u v) :
    (v.1.tally = u.1.tally ∧ v.1.graph.nodeCount = u.1.graph.nodeCount) ∨
      ∃ i, v.1 = (u.1.createAllocation i).1 := by
  cases hw with
  | report e => exact .inl ⟨rfl, rfl⟩
  | copy _ => exact .inl (tally_connectCopy ..)
  | memory _ _ _ _ => exact .inl (tally_connectCopy ..)
  | @allocate _ _ i _ _ _ _ => exact .inr ⟨i, rfl⟩

/-- **Only fresh memory changes the tally.** -/
theorem tally_step (hv : s.Valid) (hstep : Step .analysis s t) :
    (t.tally = s.tally ∧ t.graph.nodeCount = s.graph.nodeCount) ∨
      ∃ F A added added', Wiring F A (s, added) (t, added') := by
  cases hstep with
  | note hm => exact .inl ⟨congrArg (· + _) hm, rfl⟩
  | hand op hop => exact hop.elim
  | address _ _ _ => exact .inl ⟨rfl, rfl⟩
  | seeded _ => exact .inl ⟨rfl, rfl⟩
  | wait _ => exact .inl ⟨rfl, rfl⟩
  | pop hd =>
    obtain ⟨_, _, -, -, rfl⟩ := dequeue?_cases hd
    exact .inl ⟨rfl, rfl⟩
  | treat hr => exact .inl ⟨tally_treat hv hr, congrArg _ (Frame.treat hv hr).graph⟩
  | callee _ _ _ => exact .inl ⟨rfl, rfl⟩
  | wiring hw _ _ => exact .inr ⟨_, _, _, _, hw⟩
  | record _ => exact .inl ⟨rfl, rfl⟩

/-! ## Any analysis -/

/-- Two nodes more are at most two classes more. -/
theorem tally_le_of_wiring (h : u.1.tally ≤ u.1.graph.nodeCount) (hw : Wiring F A u v) :
    v.1.tally ≤ v.1.graph.nodeCount := by
  refine hw.keeps (I := fun v => v.1.tally ≤ v.1.graph.nodeCount) (fun {u v} hw hu => ?_) h
  rcases tally_wire hw with ⟨htally, hcount⟩ | ⟨i, heq⟩
  · rwa [htally, hcount]
  · rw [heq, tally_createAllocation, nodeCount_createAllocation]
    have hvalue := u.1.classes.countClasses_range_succ_le u.1.graph.nodeCount
    have hobject := u.1.classes.countClasses_range_succ_le (u.1.graph.nodeCount + 1)
    unfold tally ConstraintGraph.nodeIds at hu
    omega

/-- **In an analysis merges and classes never outnumber the nodes.** -/
theorem tally_le_of_steps (h : s.tally ≤ s.graph.nodeCount) (hs : s.Coherent)
    (hsteps : Steps .analysis s t) : t.tally ≤ t.graph.nodeCount := by
  refine hsteps.keeps (I := fun s => s.tally ≤ s.graph.nodeCount) hs (fun hs hstep hle => ?_) h
  rcases tally_step hs.valid hstep with ⟨htally, hcount⟩ | ⟨F, A, _, _, hw⟩
  · rwa [htally, hcount]
  · exact tally_le_of_wiring hle hw

/-! ## An analysis that keeps to its graph -/

namespace Tallied

/-- Fresh memory is two nodes and two classes. The value and the object come one after the other,
each alone in its class. -/
theorem createAllocation (h : s.Tallied) (hc : s.Contained) (i : SiteId) :
    (s.createAllocation i).1.Tallied := by
  have halone : ∀ n, s.graph.nodeCount ≤ n → s.classes.countClasses (List.range (n + 1)) =
      s.classes.countClasses (List.range n) + 1 := by
    intro n hn
    refine Partition.countClasses_range_succ (hc.representative_of_le hn) fun m hm heq => ?_
    exact Nat.ne_of_lt hm (hc.eq_of_representative hn heq)
  have hvalue := halone s.graph.nodeCount (Nat.le_refl _)
  have hobject := halone (s.graph.nodeCount + 1) (Nat.le_succ _)
  change (s.createAllocation i).1.tally = _
  rw [tally_createAllocation, nodeCount_createAllocation]
  unfold Tallied ConstraintGraph.nodeIds at h
  omega

theorem wiring (h : u.1.Tallied) (hc : u.1.Contained) (hw : Wiring F A u v) : v.1.Tallied := by
  induction hw with
  | refl => exact h
  | tail huv hwire ih =>
    rcases tally_wire hwire with ⟨htally, hcount⟩ | ⟨i, heq⟩
    · exact htally.trans (ih.trans hcount.symm)
    · rw [heq]
      exact ih.createAllocation (hc.wiring huv) i

/-- **An analysis that keeps to its graph keeps the tally.** -/
theorem steps (h : s.Tallied) (hs : s.Coherent) (hc : s.Contained)
    (hsteps : Steps .analysis s t) : t.Tallied := by
  induction hsteps with
  | refl => exact h
  | tail hst hstep ih =>
    rcases tally_step (hs.steps hst).valid hstep with ⟨htally, hcount⟩ | ⟨F, A, added, _, hw⟩
    · exact htally.trans (ih.trans hcount.symm)
    · exact wiring ih (hc.steps hs Licence.bounded_analysis hst) hw

end Tallied

/-- **States with the same classes and nodes have made the same number of merges.** -/
theorem merges_eq (hs : s.Tallied) (ht : t.Tallied)
    (hnodes : s.graph.nodeCount = t.graph.nodeCount) (hsame : ∀ x y, s.Same x y ↔ t.Same x y) :
    s.counters.merges = t.counters.merges := by
  have hcount := Partition.countClasses_congr s.graph.nodeIds hsame
  unfold Tallied ConstraintGraph.nodeIds at hs ht
  unfold ConstraintGraph.nodeIds at hcount
  rw [← hnodes] at ht
  omega

/-- Before the analysis nothing is merged. -/
theorem tallied_ofProblem {p : Problem} (h : ofProblem p = .ok s) : s.Tallied := by
  obtain ⟨-, -, rfl⟩ := ofProblem_eq_ok h
  exact (Nat.zero_add _).trans (Partition.countClasses_empty _)

end PointsTo.Solver
