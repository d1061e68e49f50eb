import PointsTo.Proofs.Closure

/-!
# The shortcut of a treated class

A class with loads or stores unifies their ends with every object of its set. Once one object is
joined, all ends share its class, so an object in the class of any end needs no unification.
Treating a class looks at one end, the anchor, and skips such objects. The plain way applies every
load and store to every object. What the shortcut skips would have changed nothing, so both ways
reach the same state, reports and order of the worklist included, and differ only in how many loads
and stores they count.

The two ways are compared in lock step: the states stay the same up to the two counts while classes
are merged under the eyes of both.

## Main definitions

* `Solver.applyPlainly`, `Solver.treatPlainly`: applying constraints without the shortcut
* `Solver.Spares`: the same state, with no more loads and stores counted

## Main results

* `unify_withCounters`: a unification does not look at the counts
* `Spares.joinObject_of_joinedAt`: an object that is joined is only counted
* `spares_treat`: treating a class is treating it plainly, but for the counts
* `spares_treat_of_reachable`: so it is for every class taken, whatever was done before
-/

namespace PointsTo

namespace Solver

variable {s t u : Solver} {edges held : ClassEdges} {objects : List NodeId}
  {a b d o q rep first : NodeId}

/-! ## The plain way -/

/-- The constraints `edges` of a class with the given objects, with no object skipped. -/
def applyPlainly (edges : ClassEdges) (objects : List NodeId) (s : Solver) : Solver :=
  edges.geps.foldl joinGep (edges.copies.foldl joinCopy (objects.foldl (joinObject edges) s))

/-- Treats a class, with a given way to apply its constraints. -/
def treatBy (apply : ClassEdges → List NodeId → Solver → Solver) (s : Solver) (rep : NodeId) :
    Solver × Except AnalysisError Unit :=
  match s.graph.missing? [rep] with
  | some n => (s, .error (.unknownNode n))
  | none =>
    let s := s.loadEdges rep
    let objects := (s.pointsTo rep).toList
    match s.edges[rep]? with
    | none => (s, .ok ())
    | some edges =>
      match s.graph.missing? (if edges.touchesMemory then objects else []) with
      | some n => (s, .error (.unknownNode n))
      | none => (apply edges objects { s with edges := s.edges.insert rep edges.lasting }, .ok ())

/-- **Treats a class without the shortcut.** -/
def treatPlainly (s : Solver) (rep : NodeId) : Solver × Except AnalysisError Unit :=
  s.treatBy applyPlainly rep

/-- The shortcut is in the way constraints are applied and nowhere else. -/
theorem treat_eq_treatBy (s : Solver) (rep : NodeId) : s.treat rep = s.treatBy applyEdges rep := rfl

/-- Constraints are applied in one place, if at all: to the state from which they were taken. -/
theorem treatBy_cases (s : Solver) (rep : NodeId) :
    (∃ r, ∀ apply, s.treatBy apply rep = r) ∨
      ∃ edges objects, ∀ apply,
        s.treatBy apply rep = (apply edges objects (s.taken rep), .ok ()) := by
  unfold treatBy
  cases s.graph.missing? [rep] with
  | some n => exact .inl ⟨_, fun _ => rfl⟩
  | none =>
    dsimp only
    cases hedges : (s.loadEdges rep).edges[rep]? with
    | none => exact .inl ⟨_, fun _ => rfl⟩
    | some edges =>
      have hedgesOf : (s.loadEdges rep).edgesOf rep = edges := by
        rw [edgesOf, Std.ExtTreeMap.getD_eq_getD_getElem?, hedges, Option.getD_some]
      dsimp only
      split
      · exact .inl ⟨_, fun _ => rfl⟩
      · refine .inr ⟨edges, ((s.loadEdges rep).pointsTo rep).toList, fun _ => ?_⟩
        rw [taken, hedgesOf]

/-! ## Counts play no part in a unification -/

/-- The state with other counts. -/
def withCounters (s : Solver) (counters : Counters) : Solver := { s with counters }

theorem loadEdges_withCounters (s : Solver) (c : Counters) (n : NodeId) :
    (s.withCounters c).loadEdges n = (s.loadEdges n).withCounters c := by
  unfold loadEdges withCounters
  by_cases hn : s.loaded.contains n = true
  · simp only [hn, if_true]
  · simp only [hn]
    rfl

theorem moveEdges_withCounters (s : Solver) (c : Counters) (lost survivor : NodeId) :
    (s.withCounters c).moveEdges lost survivor = (s.moveEdges lost survivor).withCounters c := by
  unfold moveEdges withCounters
  cases s.edges[lost]? <;> rfl

/-- A merge is counted on top of whatever was counted before. Moving set and constraints and loading
both nodes leave the counts alone; the merge is counted last. -/
theorem absorb_withCounters (s : Solver) (c : Counters) (lost survivor : NodeId) :
    (s.withCounters c).absorb lost survivor =
      (s.absorb lost survivor).withCounters { c with merges := c.merges + 1 } := by
  change (((((s.moveSet lost survivor).withCounters c).moveEdges lost survivor).loadEdges
    lost).loadEdges survivor).countMerge lost survivor = _
  rw [moveEdges_withCounters, loadEdges_withCounters, loadEdges_withCounters]
  rfl

theorem unify_of_same (h : s.Same a b) : (s.unify a b).1 = s := by
  unfold unify
  rw [Partition.union_of_find_eq h]

theorem unify_of_union {p : Partition} {lost survivor : NodeId}
    (h : s.classes.union a b s.settings.representativePolicy = (p, ⟨survivor, some lost⟩)) :
    (s.unify a b).1 = (({ s with classes := p }.absorb lost survivor).enqueue survivor).1 := by
  unfold unify
  rw [h]

/-- **A unification does not look at the counts**: a change of them that leaves merges alone may as
well be made afterwards. Which class survives is up to the classes and the policy, so both states
merge alike. -/
theorem unify_withCounters {f : Counters → Counters}
    (hf : ∀ c : Counters, f { c with merges := c.merges + 1 } =
      { f c with merges := (f c).merges + 1 }) (s : Solver) (a b : NodeId) :
    ((s.withCounters (f s.counters)).unify a b).1 =
      (s.unify a b).1.withCounters (f (s.unify a b).1.counters) := by
  by_cases hab : s.Same a b
  · have hcounted : (s.withCounters (f s.counters)).Same a b := hab
    rw [unify_of_same hab, unify_of_same hcounted]
  · obtain ⟨lost, survivor, -, hunion⟩ :=
      Partition.union_of_ne hab s.settings.representativePolicy
    have hmerged := absorb_withCounters
      { s with classes := s.classes.absorb lost survivor } (f s.counters) lost survivor
    have hcounters : (s.join lost survivor).counters =
        { s.counters with merges := s.counters.merges + 1 } := by rw [join_eq]
    rw [unify_of_union hunion, unify_of_union (s := s.withCounters (f s.counters)) hunion]
    change ((({ s with classes := s.classes.absorb lost survivor }.withCounters
      (f s.counters)).absorb lost survivor).enqueue survivor).1 =
        ((s.join lost survivor).enqueue survivor).1.withCounters (f (s.join lost survivor).counters)
    rw [hmerged, hcounters, hf]
    rfl

/-- A unification counts a merge, if anything. -/
theorem exists_counters_unify (s : Solver) (a b : NodeId) :
    ∃ merges, (s.unify a b).1.counters = { s.counters with merges } := by
  rcases s.unify_cases a b with ⟨-, heq⟩ | ⟨lost, survivor, -, heq⟩
  · exact ⟨s.counters.merges, by rw [heq]⟩
  · refine ⟨s.counters.merges + 1, ?_⟩
    rw [heq]
    change (s.join lost survivor).counters = _
    rw [join_eq]

/-! ## The same state with fewer counts -/

/-- **The same state, with no more loads and stores counted**: nothing else is different. -/
def Spares (s t : Solver) : Prop :=
  ∃ loads stores, loads ≤ t.counters.loadEdgesProcessed ∧ stores ≤ t.counters.storeEdgesProcessed ∧
    s = { t with
      counters := { t.counters with loadEdgesProcessed := loads, storeEdgesProcessed := stores } }

namespace Spares

theorem refl (s : Solver) : s.Spares s := ⟨_, _, Nat.le_refl _, Nat.le_refl _, rfl⟩

theorem trans (h₁ : s.Spares t) (h₂ : t.Spares u) : s.Spares u := by
  obtain ⟨loads, stores, hloads, hstores, rfl⟩ := h₁
  obtain ⟨loads', stores', hloads', hstores', rfl⟩ := h₂
  exact ⟨loads, stores, hloads.trans hloads', hstores.trans hstores', rfl⟩

theorem joinedAt (h : s.Spares t) (ho : JoinedAt edges s o) : JoinedAt edges t o := by
  obtain ⟨loads, stores, -, -, rfl⟩ := h
  exact ⟨ho.stores, ho.loads⟩

theorem unify (h : s.Spares t) (a b : NodeId) : (s.unify a b).1.Spares (t.unify a b).1 := by
  obtain ⟨loads, stores, hloads, hstores, rfl⟩ := h
  obtain ⟨merges, hcounters⟩ := t.exists_counters_unify a b
  refine ⟨loads, stores, by rwa [hcounters], by rwa [hcounters], ?_⟩
  exact unify_withCounters (f := fun c =>
    { c with loadEdgesProcessed := loads, storeEdgesProcessed := stores }) (fun _ => rfl) t a b

theorem joinStore (h : s.Spares t) (o q : NodeId) :
    (Solver.joinStore o s q).Spares (Solver.joinStore o t q) := by
  obtain ⟨loads, stores, hloads, hstores, rfl⟩ := h
  exact unify (t := { t with
    counters.storeEdgesProcessed := t.counters.storeEdgesProcessed + 1 })
    ⟨loads, stores + 1, hloads, Nat.succ_le_succ hstores, rfl⟩ q o

theorem joinLoad (h : s.Spares t) (o d : NodeId) :
    (Solver.joinLoad o s d).Spares (Solver.joinLoad o t d) := by
  obtain ⟨loads, stores, hloads, hstores, rfl⟩ := h
  exact unify (t := { t with counters.loadEdgesProcessed := t.counters.loadEdgesProcessed + 1 })
    ⟨loads + 1, stores, Nat.succ_le_succ hloads, hstores, rfl⟩ o d

theorem joinCopy (h : s.Spares t) (e : NodeId × NodeId) :
    (Solver.joinCopy s e).Spares (Solver.joinCopy t e) := by
  obtain ⟨loads, stores, hloads, hstores, rfl⟩ := h
  exact unify (t := { t with counters.copyEdgesProcessed := t.counters.copyEdgesProcessed + 1 })
    ⟨loads, stores, hloads, hstores, rfl⟩ e.1 e.2

theorem joinGep (h : s.Spares t) (e : NodeId × NodeId) :
    (Solver.joinGep s e).Spares (Solver.joinGep t e) := by
  obtain ⟨loads, stores, hloads, hstores, rfl⟩ := h
  exact unify (t := { t with counters.gepEdgesProcessed := t.counters.gepEdgesProcessed + 1 })
    ⟨loads, stores, hloads, hstores, rfl⟩ e.1 e.2

/-- Steps that keep two states alike may be taken one after the other. -/
theorem foldl {α : Type} {f : Solver → α → Solver}
    (hf : ∀ {s t : Solver}, s.Spares t → ∀ x, (f s x).Spares (f t x)) (h : s.Spares t)
    (xs : List α) : (xs.foldl f s).Spares (xs.foldl f t) := by
  induction xs generalizing s t with
  | nil => exact h
  | cons x xs ih => exact ih (hf h x)

theorem joinObject (h : s.Spares t) (edges : ClassEdges) (o : NodeId) :
    (Solver.joinObject edges s o).Spares (Solver.joinObject edges t o) :=
  foldl (fun h d => h.joinLoad o d) (foldl (fun h q => h.joinStore o q) h _) _

/-! ### What the shortcut skips -/

theorem joinStore_of_same (h : s.Same q o) : s.Spares (Solver.joinStore o s q) := by
  refine ⟨s.counters.loadEdgesProcessed, s.counters.storeEdgesProcessed, ?_⟩
  have hunified : Solver.joinStore o s q =
    { s with counters.storeEdgesProcessed := s.counters.storeEdgesProcessed + 1 } := unify_of_same h
  rw [hunified]
  exact ⟨Nat.le_refl _, Nat.le_succ _, rfl⟩

theorem joinLoad_of_same (h : s.Same o d) : s.Spares (Solver.joinLoad o s d) := by
  refine ⟨s.counters.loadEdgesProcessed, s.counters.storeEdgesProcessed, ?_⟩
  have hunified : Solver.joinLoad o s d =
    { s with counters.loadEdgesProcessed := s.counters.loadEdgesProcessed + 1 } := unify_of_same h
  rw [hunified]
  exact ⟨Nat.le_succ _, Nat.le_refl _, rfl⟩

/-- **An object that is joined is only counted.** Along both folds the state is `s` with more
counted, so that the object stays joined. -/
theorem joinObject_of_joinedAt (h : JoinedAt edges s o) :
    s.Spares (Solver.joinObject edges s o) := by
  have hstores : s.Spares (edges.stores.foldl (Solver.joinStore o) s) :=
    List.foldlRecOn _ _ (refl s) fun t ht q hq =>
      ht.trans (joinStore_of_same ((ht.joinedAt h).stores q hq))
  exact List.foldlRecOn _ _ hstores fun t ht d hd =>
    ht.trans (joinLoad_of_same ((ht.joinedAt h).loads d hd))

end Spares

/-! ## Both ways in lock step -/

/-- **One more object**: it is joined by both, or skipped by the one and merely counted by the
other. -/
theorem Spares.joinNextObject (h : s.Spares t) (hfirst : JoinedAt edges s first) (o : NodeId) :
    (Solver.joinNextObject edges s o).Spares (Solver.joinObject edges t o) := by
  unfold Solver.joinNextObject
  split
  · exact h.joinObject edges o
  · rename_i anchor hanchor
    split
    · rename_i hsame
      exact h.trans (joinObject_of_joinedAt (h.joinedAt (hfirst.of_anchor hanchor hsame)))
    · exact h.joinObject edges o

/-- The first object stays joined, so that the shortcut is exact for all that follow it. -/
theorem Spares.foldl_joinNextObject (h : s.Spares t) (hv : s.ValidBut held)
    (hfirst : JoinedAt edges s first) (objects : List NodeId) :
    (objects.foldl (Solver.joinNextObject edges) s).Spares
      (objects.foldl (Solver.joinObject edges) t) := by
  induction objects generalizing s t with
  | nil => exact h
  | cons o objects ih =>
    have hjoins : Joins (edges.Asks [o]) s (Solver.joinNextObject edges s o) :=
      joins_joinNextObject (List.mem_singleton_self o) s
    exact ih (h.joinNextObject hfirst o) (hjoins.validBut hv) (hfirst.joins hv hjoins)

/-- **The shortcut spares work only.** The first object is never skipped, and from then on its class
holds all ends. -/
theorem spares_joinObjects (hv : s.ValidBut held) (edges : ClassEdges) (objects : List NodeId) :
    (joinObjects edges s objects).Spares (objects.foldl (joinObject edges) s) := by
  cases objects with
  | nil => exact .refl s
  | cons first objects =>
    have hjoins : Joins (edges.Asks [first]) s (joinObject edges s first) :=
      joins_joinObject (List.mem_singleton_self first) s
    exact (Spares.refl _).foldl_joinNextObject (hjoins.validBut hv)
      (joinedAt_joinObject hv edges first) objects

theorem spares_applyEdges (hv : s.ValidBut held) (edges : ClassEdges) (objects : List NodeId) :
    (applyEdges edges objects s).Spares (applyPlainly edges objects s) :=
  .foldl (fun h e => h.joinGep e)
    (.foldl (fun h e => h.joinCopy e) (spares_joinObjects hv edges objects) _) _

/-- **Treating a class is treating it plainly**, but for the loads and stores that are counted. -/
theorem spares_treat (hv : s.Valid) (rep : NodeId) :
    (s.treat rep).2 = (s.treatPlainly rep).2 ∧ (s.treat rep).1.Spares (s.treatPlainly rep).1 := by
  rw [treat_eq_treatBy, treatPlainly]
  rcases s.treatBy_cases rep with ⟨r, hr⟩ | ⟨edges, objects, happly⟩
  · rw [hr, hr]
    exact ⟨rfl, .refl _⟩
  · rw [happly, happly]
    exact ⟨rfl, spares_applyEdges (ValidBut.take (hv.loadEdges rep) rep) edges objects⟩

end Solver

open Solver

variable {p : Problem} {s t u : Solver} {rep : NodeId}

/-- **The shortcut is exact.** Whatever was done to the solver, and however far the operation under
way has come, treating the class that is taken next gives the result and the state that treating it
plainly gives; only loads and stores may be counted less often. -/
theorem spares_treat_of_reachable (hp : p.Made) (hs : Reachable .any p s)
    (hst : Steps (.within .any) s t) (hpop : t.dequeue? = some (rep, u)) :
    (u.countPop.treat rep).2 = (u.countPop.treatPlainly rep).2 ∧
      (u.countPop.treat rep).1.Spares (u.countPop.treatPlainly rep).1 := by
  have ht := ((hs.coherent hp).steps hst).valid
  exact spares_treat ((ht.dequeue? hpop).count u.countPop.counters) rep

/-- The sample when a class with loads and stores is taken next, whose two objects were merged by
hand. -/
def sampleSkipping : Solver :=
  sampleHistory.after
    [.hand (.addObjects 2 (.ofList [6, 8])), .hand (.mergeInto 8 6), .hand .dequeue]

/-- The second object is skipped, which spares a store. -/
theorem spares_treat_sample : ∃ u, sampleSkipping.dequeue? = some (2, u) ∧
    (u.countPop.treat 2).1.counters.storeEdgesProcessed = 1 ∧
    (u.countPop.treatPlainly 2).1.counters.storeEdgesProcessed = 2 ∧
    (u.countPop.treat 2).2 = (u.countPop.treatPlainly 2).2 ∧
    (u.countPop.treat 2).1.Spares (u.countPop.treatPlainly 2).1 := by
  have hcounts : sampleSkipping.dequeue?.map (fun popped =>
      (popped.1, (popped.2.countPop.treat 2).1.counters.storeEdgesProcessed,
        (popped.2.countPop.treatPlainly 2).1.counters.storeEdgesProcessed)) = some (2, 1, 2) := by
    decide +kernel
  obtain ⟨⟨rep, u⟩, hpop, hcounted⟩ := Option.map_eq_some_iff.mp hcounts
  obtain ⟨rfl, hcounted⟩ := Prod.mk.inj hcounted
  obtain ⟨hspared, hplain⟩ := Prod.mk.inj hcounted
  exact ⟨u, hpop, hspared, hplain, spares_treat_of_reachable sampleProblem_made
    (reachable_sampleHistory.after _) .refl hpop⟩

end PointsTo
