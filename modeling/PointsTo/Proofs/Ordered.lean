import PointsTo.Proofs.Contained

/-!
# Stored sets ascend

Every operation on a store keeps its sets ascending, and the solver changes its store by these
operations alone. So the searches and walks over the sets of a solver find what they look for, as
long as sets that were added by hand ascend.

## Main definitions

* `Store.Ascending`: all sets of a store ascend
* `Licence.Ordered`: so do the sets that may be added by hand

## Main results

* `Store.Ascending.step`, `Store.Ascending.steps`: every step keeps the stored sets ascending
* `ascending_ofProblem`: an analysis starts from such a state
-/

namespace PointsTo

/-- **All sets of a store ascend.** -/
def Store.Ascending (sets : Store) : Prop := ∀ n, (sets.get n).Ascending

/-- Sets that are added by hand ascend. -/
def Licence.Ordered (L : Licence) : Prop :=
  ∀ {s n objects}, L.hand s (.addObjects n objects) → objects.Ascending

theorem Licence.ordered_analysis : Licence.analysis.Ordered := fun h => h.elim

namespace Store.Ascending

variable {sets : Store}

theorem empty : (∅ : Store).Ascending := by
  intro n
  rw [get_empty]
  exact IdSet.ascending_empty

theorem insert (h : sets.Ascending) (n o : NodeId) : (sets.insert n o).1.Ascending := by
  intro r
  rw [get_insert]
  split
  · exact IdSet.ascending_insert (h n) o
  · exact h r

theorem union (h : sets.Ascending) (n : NodeId) {objects : IdSet} (ho : objects.Ascending) :
    (sets.union n objects).1.Ascending := by
  intro r
  rw [get_union]
  split
  · exact IdSet.ascending_union (h n) ho
  · exact h r

theorem unionFrom (h : sets.Ascending) (n m : NodeId) : (sets.unionFrom n m).1.Ascending := by
  intro r
  rw [get_unionFrom]
  split
  · exact IdSet.ascending_union (h n) (h m)
  · exact h r

theorem take (h : sets.Ascending) (n : NodeId) : (sets.take n).2.Ascending := by
  intro r
  rw [get_take]
  split
  · exact IdSet.ascending_empty
  · exact h r

end Store.Ascending

/-! ## Steps -/

namespace Solver

variable {s t : Solver} {L : Licence} {F : NodeId → NodeId → Prop} {A : SiteId → Prop}
  {u v : Solver × CopySet}

/-- A merge moves a set into another one. -/
theorem ascending_join (h : s.store.Ascending) (lost survivor : NodeId) :
    (s.join lost survivor).store.Ascending := by
  rw [join_eq]
  exact (h.take lost).union survivor (h lost)

theorem ascending_unify (h : s.store.Ascending) (a b : NodeId) :
    (s.unify a b).1.store.Ascending := by
  rcases s.unify_cases a b with ⟨-, heq⟩ | ⟨lost, survivor, -, heq⟩
  · rw [heq]
    exact h
  · rw [heq]
    exact ascending_join h lost survivor

theorem ascending_mergeInto (h : s.store.Ascending) (n m : NodeId) :
    (s.mergeInto n m).1.store.Ascending := by
  rcases s.mergeInto_cases n m with ⟨-, heq⟩ | ⟨-, heq⟩
  · rw [heq]
    exact h
  · rw [heq]
    exact ascending_join h _ _

theorem ascending_joins {R : NodeId → NodeId → Prop} (h : s.store.Ascending) (hj : Joins R s t) :
    t.store.Ascending := by
  induction hj with
  | refl => exact h
  | @tail t counters a b _ _ _ ih => exact ascending_unify (s := { t with counters }) ih a b

theorem ascending_connectCopy (h : s.store.Ascending) (added : CopySet) (a b : NodeId) :
    (s.connectCopy added a b).1.store.Ascending := by
  rcases s.connectCopy_cases added a b with ⟨heq, -⟩ | ⟨-, -, heq⟩
  · rw [heq]
    exact h
  · rw [heq]
    exact h

theorem ascending_wiring (h : u.1.store.Ascending) (hw : Wiring F A u v) :
    v.1.store.Ascending := by
  refine hw.keeps (I := fun v => v.1.store.Ascending) (fun hw ht => ?_) h
  cases hw with
  | report _ => exact ht
  | copy _ => exact ascending_connectCopy ht _ _ _
  | memory _ _ _ _ => exact ascending_connectCopy ht _ _ _
  | allocate _ _ _ => exact ht.insert _ _

theorem ascending_hand (h : s.store.Ascending) (hL : L.Ordered) (op : Hand) (hop : L.hand s op) :
    (op.apply s).store.Ascending := by
  cases op with
  | addObject n o => exact h.insert _ o
  | addObjects n objects => exact h.union _ (hL hop)
  | addObjectsOf n m => exact h.unionFrom _ _
  | mergeInto n m => exact ascending_mergeInto h n m
  | unify a b => exact ascending_unify h a b
  | subsume n sub => exact h
  | enqueue n => exact h
  | dequeue =>
    obtain ⟨w, heq⟩ := Hand.apply_dequeue s
    rw [heq]
    exact h

end Solver

open Solver

variable {p : Problem} {s t : Solver} {L : Licence}

theorem Store.Ascending.step (h : s.store.Ascending) (hv : s.Valid) (hL : L.Ordered)
    (hstep : Step L s t) : t.store.Ascending := by
  cases hstep with
  | note _ => exact h
  | hand op hop => exact ascending_hand h hL op hop
  | address _ _ _ => exact h.insert _ _
  | seeded _ => exact h
  | wait _ => exact h
  | pop hd =>
    obtain ⟨_, _, -, -, rfl⟩ := dequeue?_cases hd
    exact h
  | treat hr =>
    obtain ⟨edges, loaded, _, -, hjoins⟩ := joins_treat hv hr
    exact ascending_joins (s := { s with edges, loaded }) h hjoins
  | callee _ _ _ => exact h
  | wiring hw _ _ => exact ascending_wiring (u := (s, _)) h hw
  | record _ => exact h

/-- **Every step keeps the stored sets ascending.** -/
theorem Store.Ascending.steps (h : s.store.Ascending) (hs : s.Coherent) (hL : L.Ordered)
    (hsteps : Steps L s t) : t.store.Ascending :=
  hsteps.keeps (I := fun s => s.store.Ascending) hs
    (fun ht hstep hsets => hsets.step ht.valid hL hstep) h

theorem ascending_ofProblem (hp : p.store.Ascending) (h : ofProblem p = .ok s) :
    s.store.Ascending := by
  obtain ⟨-, -, rfl⟩ := ofProblem_eq_ok h
  exact hp

theorem Problem.Plain.ascending (hp : p.Plain) (h : ofProblem p = .ok s)
    (hsteps : Steps .analysis s t) : t.store.Ascending := by
  have hempty : p.store.Ascending := by
    rw [hp.store]
    exact .empty
  exact (ascending_ofProblem hempty h).steps (coherent_ofProblem hp.made h)
    Licence.ordered_analysis hsteps

end PointsTo
