import PointsTo.Proofs.Contained

/-!
# Least solutions

A solution says which nodes share a class and what each node may point to. One that obeys the
constraints of a graph, and the flows of the callees connected so far, is compared with the state of
a solver. Every step of an analysis stays below all such solutions: whatever it merges, points to or
copies is forced.

## Main definitions

* `Solution`: classes and points-to sets
* `Solution.Obeys`: the rules of the constraints
* `Solution.Meets`: the rules, the flows of the connected callees and the memory of their sites
* `Solution.Above`: all that a state holds is in the solution
* `Solver.Minimal`: a state of an analysis that is below every solution that meets its demands

## Main results

* `Above.unify`: merging what a solution equates stays below it
* `Minimal.steps`: the steps of an analysis stay below every solution
* `minimal_ofProblem`: so does the state that it starts from
-/

namespace PointsTo

open Solver

/-- Classes and points-to sets. -/
structure Solution where
  /-- Two nodes share a class. -/
  same : NodeId → NodeId → Prop
  /-- A node points to an object. -/
  pointsTo : NodeId → NodeId → Prop
  equivalence : Equivalence same
  respects : ∀ {x y o}, same x y → pointsTo x o → pointsTo y o

/-- The classes and sets of a solver. -/
def Solver.solution (s : Solver) : Solution where
  same := s.Same
  pointsTo n o := o ∈ s.pointsTo n
  equivalence := ⟨Same.refl s, Same.symm, Same.trans⟩
  respects {x y o} hxy hx := by
    rw [mem_pointsTo] at hx ⊢
    exact Eq.subst (motive := fun r => o ∈ s.store.get r) hxy hx

namespace Solution

variable {u : Solution} {base s t : Solver} {a b lost survivor : NodeId}

/-- **The rules of the constraints.** -/
structure Obeys (u : Solution) (g : ConstraintGraph) : Prop where
  addr : ∀ {o p}, g.hasEdge .addr o p = true → u.pointsTo p o
  copy : ∀ {a b}, g.hasEdge .copy a b = true → u.same a b
  gep : ∀ {a b}, g.hasEdge .gep a b = true → u.same a b
  load : ∀ {p r o}, g.hasEdge .load p r = true → u.pointsTo p o → u.same o r
  store : ∀ {q p o}, g.hasEdge .store q p = true → u.pointsTo p o → u.same q o

/-- A graph with fewer edges asks for less. -/
theorem Obeys.anti {g g' : ConstraintGraph} (h : u.Obeys g')
    (hedges : ∀ k x y, g.hasEdge k x y = true → g'.hasEdge k x y = true) : u.Obeys g where
  addr he := h.addr (hedges _ _ _ he)
  copy he := h.copy (hedges _ _ _ he)
  gep he := h.gep (hedges _ _ _ he)
  load he := h.load (hedges _ _ _ he)
  store he := h.store (hedges _ _ _ he)

/-- **What is asked of a solution in a state**: the rules of the constraints of a graph, the flows
of the connected callees, and the memory of the sites. -/
structure Meets (u : Solution) (g : ConstraintGraph) (s : Solver) : Prop where
  rules : u.Obeys g
  flow : ∀ {site callee a b}, s.Connected site callee → CallFlow s.settings site callee a b →
    u.same a b
  object : ∀ {i m}, s.allocation? i = some m → u.pointsTo m.value m.object
  value : ∀ {i m site r}, s.allocation? i = some m → s.sites[i]? = some site →
    site.ret = some r → u.same m.value r

/-- A later state asks for more. -/
theorem Meets.anti {g : ConstraintGraph} (h : u.Meets g t) (hst : s.Grows t) : u.Meets g s := by
  refine ⟨h.rules, fun hconn hflow => ?_, fun hm => ?_, fun hm hsite => ?_⟩
  · exact h.flow (hconn.mono hst) (hst.settings ▸ hflow)
  · exact h.object (hst.allocations hm)
  · exact h.value (hst.allocations hm) (hst.sites ▸ hsite)

/-- **All that a state holds is in the solution.** -/
structure Above (u : Solution) (s : Solver) : Prop where
  same : ∀ {x y}, s.Same x y → u.same x y
  pointsTo : ∀ {n o}, o ∈ s.pointsTo n → u.pointsTo n o
  copy : ∀ {a b}, s.graph.hasEdge .copy a b = true → u.same a b

namespace Above

/-- Merging two classes that the solution equates. The two representatives are equated, as each
shares the class of `a` or of `b`. -/
theorem join (h : u.Above s) (hv : s.classes.Valid) (hj : s.Joinable a b lost survivor)
    (hab : u.same a b) : u.Above (s.join lost survivor) := by
  have hlost := hj.lost_eq hv
  have hsurvivor := hj.survivor_eq hv
  have hba := u.equivalence.symm hab
  have hmerged : u.same lost survivor := by
    rcases hj.pair with ⟨rfl, rfl⟩ | ⟨rfl, rfl⟩
    · exact u.equivalence.trans (h.same (same_representative hv a).symm)
        (u.equivalence.trans hab (h.same (same_representative hv b)))
    · exact u.equivalence.trans (h.same (same_representative hv b).symm)
        (u.equivalence.trans hba (h.same (same_representative hv a)))
  refine ⟨fun {x y} hxy => ?_, fun {n o} ho => ?_, fun {a b} he => ?_⟩
  · rcases hj.same_cases hv hxy with hxy | ⟨hxa, hby⟩ | ⟨hxb, hay⟩
    · exact h.same hxy
    · exact u.equivalence.trans (h.same hxa) (u.equivalence.trans hab (h.same hby))
    · exact u.equivalence.trans (h.same hxb) (u.equivalence.trans hba (h.same hay))
  · have hfrom : ∀ r, s.representative r = r → u.same r n → o ∈ s.store.get r → u.pointsTo n o := by
      intro r hr hrn hor
      refine u.respects hrn (h.pointsTo ?_)
      rwa [mem_pointsTo, hr]
    rw [mem_pointsTo, representative_join hv hlost, mem_get_join s hj.ne] at ho
    by_cases hn : s.representative n = lost
    · have hlostn : u.same lost n := h.same (hlost.trans hn.symm)
      rw [if_pos hn, if_pos rfl] at ho
      rcases ho with ho | ho
      · exact hfrom survivor hsurvivor
          (u.equivalence.trans (u.equivalence.symm hmerged) hlostn) ho
      · exact hfrom lost hlost hlostn ho
    · rw [if_neg hn] at ho
      split_ifs at ho with hn'
      · have hsurvivorn : u.same survivor n := h.same (hsurvivor.trans hn'.symm)
        rcases ho with ho | ho
        · exact hfrom survivor hsurvivor hsurvivorn ho
        · exact hfrom lost hlost (u.equivalence.trans hmerged hsurvivorn) ho
      · exact h.pointsTo ho.2
  · rw [join_eq] at he
    exact h.copy he

/-- **Merging what a solution equates stays below it.** -/
theorem unify (h : u.Above s) (hv : s.classes.Valid) (hab : u.same a b) :
    u.Above (s.unify a b).1 := by
  rcases s.unify_cases a b with ⟨-, heq⟩ | ⟨lost, survivor, hj, heq⟩
  · rw [heq]
    exact h
  · rw [heq]
    have hjoined := h.join hv hj hab
    exact ⟨hjoined.same, hjoined.pointsTo, hjoined.copy⟩

theorem joins {R : NodeId → NodeId → Prop} {held : ClassEdges} (h : u.Above s)
    (hv : s.ValidBut held) (hR : ∀ a b, R a b → u.same a b) (hj : Joins R s t) : u.Above t := by
  induction hj with
  | refl => exact h
  | @tail t counters a b hj hc hab ih =>
    have hcounted : u.Above { t with counters } := ⟨ih.same, ih.pointsTo, ih.copy⟩
    exact hcounted.unify (hj.validBut hv).classes (hR a b hab)

/-- A copy between the classes of two nodes that the solution equates. -/
theorem connectCopy (h : u.Above s) (hv : s.classes.Valid) (hab : u.same a b) (added : CopySet) :
    u.Above (s.connectCopy added a b).1 := by
  rcases s.connectCopy_cases added a b with ⟨heq, -⟩ | ⟨-, -, heq⟩
  · rw [heq]
    exact h
  · rw [heq]
    refine ⟨h.same, h.pointsTo, fun {x y} he => ?_⟩
    rcases hasEdge_withCopy.mp he with ⟨-, rfl, rfl⟩ | he
    · exact u.equivalence.trans (h.same (same_representative hv a).symm)
        (u.equivalence.trans hab (h.same (same_representative hv b)))
    · exact h.copy he

/-- Fresh memory, of which only the fresh value knows. -/
theorem createAllocation (h : u.Above s) (hc : s.Contained) {i : SiteId}
    (hfresh : u.pointsTo (s.createAllocation i).2.value (s.createAllocation i).2.object) :
    u.Above (s.createAllocation i).1 := by
  refine ⟨h.same, fun {n o} ho => ?_, fun {a b} he => ?_⟩
  · change o ∈ (s.createAllocation i).1.store.get (s.representative n) at ho
    rw [get_createAllocation] at ho
    split at ho
    · rename_i hn
      rcases (IdSet.mem_insert ..).mp ho with rfl | ho
      · rw [createAllocation_snd] at hfresh
        rw [hc.eq_of_representative (Nat.le_refl _) hn]
        exact hfresh
      · exact h.pointsTo ho
    · exact h.pointsTo ho
  · rw [hasEdge_createAllocation] at he
    exact h.copy he

section Wiring

variable {F : NodeId → NodeId → Prop} {A : SiteId → Prop} {v w : Solver × CopySet}
  {g : ConstraintGraph}

theorem wire (h : u.Above v.1) (hw : Wire F A v w) (hv : v.1.Valid) (hc : v.1.Contained)
    (hF : ∀ a b, F a b → u.same a b) (hu : u.Meets g w.1) : u.Above w.1 := by
  cases hw with
  | report e => exact ⟨h.same, h.pointsTo, h.copy⟩
  | copy hab => exact h.connectCopy hv.classes (hF _ _ hab) _
  | memory _ hsite hr hm =>
    have hmeets := hu.anti (.connectCopy ..)
    exact h.connectCopy hv.classes (hmeets.value hm hsite hr) _
  | @allocate s added i site _ _ _ =>
    refine h.createAllocation hc (hu.object (i := i) ?_)
    rw [allocation?_createAllocation, if_pos rfl]

/-- Copies of pairs that a solution equates, and memory that it knows of, stay below it. -/
theorem wiring (h : u.Above v.1) (hw : Wiring F A v w) (hv : v.1.Valid) (hc : v.1.Contained)
    (hF : ∀ a b, F a b → u.same a b) (hu : u.Meets g w.1) : u.Above w.1 := by
  induction hw with
  | refl => exact h
  | @tail w x hvw hwx ih =>
    have hw := hu.anti (.wiring (.single hwx))
    exact (ih hw).wire hwx (hv.wiring hvw) (hc.wiring hvw) hF hu

end Wiring

end Above

end Solution

/-! ## States below every solution -/

namespace Solver

variable {base s t : Solver} {u : Solution}

/-- **A state of an analysis that holds only what is forced**: whatever solution meets its demands
is above it. -/
structure Minimal (base s : Solver) : Prop where
  coherent : s.Coherent
  contained : s.Contained
  grows : base.Grows s
  outside : s.outsideAddresses = []
  least : ∀ u : Solution, u.Meets base.graph s → u.Above s

/-- The pairs that the constraints ask to unify are equated by every solution above the state. -/
theorem Demands.same {a b : NodeId} (h : s.Demands a b) (hg : base.Grows s)
    (hu : u.Obeys base.graph) (habove : u.Above s) : u.same a b := by
  rcases h.rule with he | he | ⟨p, he, hp⟩ | ⟨p, he, hp⟩
  · exact habove.copy he
  · exact hu.gep (hg.edge (by decide) he)
  · exact hu.store (hg.edge (by decide) he) (habove.pointsTo hp)
  · exact hu.load (hg.edge (by decide) he) (habove.pointsTo hp)

/-- **A step keeps a state minimal.** What the later state asks for includes what the earlier one
did; every pair that is unified is demanded, and a solution meets the demands. -/
theorem Minimal.step (h : Minimal base s) (hstep : Step .analysis s t) : Minimal base t := by
  have hv := h.coherent.valid
  have hgrows := hstep.grows hv h.coherent.registered.calls
  refine ⟨h.coherent.step hstep, h.contained.step hv Licence.bounded_analysis hstep,
    h.grows.trans hgrows, hgrows.outsideAddresses.trans h.outside, fun u hu => ?_⟩
  have hmeets := hu.anti hgrows
  have habove := h.least u hmeets
  cases hstep with
  | note _ => exact ⟨habove.same, habove.pointsTo, habove.copy⟩
  | hand op hop => exact hop.elim
  | @address o p he _ _ =>
    refine ⟨habove.same, fun {n x} hx => ?_, habove.copy⟩
    rcases mem_pointsTo_seedEdge.mp hx with ⟨hnp, rfl⟩ | hx
    · rw [addressEdges, h.outside, List.append_nil, hv.graph.mem_addressEdges] at he
      exact u.respects (habove.same hnp.symm) (hmeets.rules.addr (h.grows.edge (by decide) he))
    · exact habove.pointsTo hx
  | seeded _ => exact ⟨habove.same, habove.pointsTo, habove.copy⟩
  | wait _ => exact ⟨habove.same, habove.pointsTo, habove.copy⟩
  | pop hd =>
    obtain ⟨m, w, -, -, rfl⟩ := dequeue?_cases hd
    exact ⟨habove.same, habove.pointsTo, habove.copy⟩
  | treat hr =>
    obtain ⟨edges, loaded, held, hvalid, hjoins⟩ := joins_treat hv hr
    have hloaded : u.Above { s with edges, loaded } :=
      ⟨habove.same, habove.pointsTo, habove.copy⟩
    exact hloaded.joins hvalid (fun a b hab => hab.same h.grows hmeets.rules habove) hjoins
  | callee _ _ _ => exact ⟨habove.same, habove.pointsTo, habove.copy⟩
  | wiring hw hF _ =>
    refine habove.wiring hw hv h.contained (fun a b hab => ?_) hu
    obtain ⟨site, callee, hconn, hflow⟩ := hF a b hab
    exact hmeets.flow hconn hflow
  | record _ => exact ⟨habove.same, habove.pointsTo, habove.copy⟩

/-- **The steps of an analysis stay below every solution that meets its demands.** -/
theorem Minimal.steps (h : Minimal base s) (hsteps : Steps .analysis s t) : Minimal base t := by
  induction hsteps with
  | refl => exact h
  | tail _ hstep ih => exact ih.step hstep

end Solver

/-! ## Before the analysis -/

variable {p : Problem} {s : Solver}

/-- The state before the analysis holds nothing. -/
theorem minimal_ofProblem (hp : p.Plain) (h : ofProblem p = .ok s) : Minimal s s := by
  refine ⟨coherent_ofProblem hp.made h, contained_ofProblem hp.contained h, .refl s, ?_, ?_⟩
  all_goals obtain ⟨-, -, rfl⟩ := ofProblem_eq_ok h
  · exact hp.outside
  · intro u hu
    refine ⟨fun {x y} hxy => ?_, fun {n o} ho => ?_, hu.rules.copy⟩
    · have heq : x = y := (Partition.find_empty x).symm.trans (hxy.trans (Partition.find_empty y))
      exact heq ▸ u.equivalence.refl x
    · change o ∈ p.store.get _ at ho
      rw [hp.store] at ho
      exact absurd (Store.get_empty _ ▸ ho) List.not_mem_nil

end PointsTo
