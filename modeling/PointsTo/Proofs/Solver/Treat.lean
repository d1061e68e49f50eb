import PointsTo.Proofs.Solver.Unification

/-!
# Treating a class

Applying the constraints of a class does two things: it unifies no pair but those that they ask for,
and afterwards every pair that they ask for shares a class. The second one takes an argument, since
most pairs are skipped: once the sources and destinations share a class with one object, an object
that shares a class with one of them shares it with all.

A class that was treated is settled, unless it was merged on the way; then the survivor waits.

## Main definitions

* `ClassEdges.Asks`: the pairs that constraints ask to unify
* `ClassEdges.Spent`: constraints of which only loads and stores are left
* `Solver.Demands`: the pairs that graph and sets ask to unify
* `Solver.Settled`: all constraints of a node hold

## Main results

* `joins_applyEdges`, `same_applyEdges`: what applying constraints does
* `joins_treat`: treating a class unifies demanded pairs and nothing else
* `ValidBut.treat`: treating a class keeps the state valid
* `treat_eq_ok`: what treating a class without an error unifies
* `waiting_or_settled_treat`: a treated class is settled or waits
* `Noticed.treat`: every other class is as it was, or waits
* `pressure_treat_le`: treating a class does not make a drain longer
-/

namespace PointsTo

/-- The pairs that constraints of a class with the given objects ask to unify. -/
def ClassEdges.Asks (e : ClassEdges) (objects : List NodeId) (a b : NodeId) : Prop :=
  (a, b) ∈ e.copies ∨ (a, b) ∈ e.geps ∨ (a ∈ e.stores ∧ b ∈ objects) ∨ (a ∈ objects ∧ b ∈ e.loads)

/-- Nothing is left of the constraints that are applied only once. -/
def ClassEdges.Spent (e : ClassEdges) : Prop := e.copies = [] ∧ e.geps = []

theorem ClassEdges.spent_lasting (e : ClassEdges) : e.lasting.Spent := ⟨rfl, rfl⟩

namespace Solver

variable {s t u : Solver} {R : NodeId → NodeId → Prop} {held edges : ClassEdges}
  {objects : List NodeId} {n m a b d x y o rep : NodeId}

/-! ## Nothing is unified but what the constraints ask for -/

theorem joins_joinObject (ho : o ∈ objects) (s : Solver) :
    Joins (edges.Asks objects) s (joinObject edges s o) := by
  refine Joins.trans (Joins.foldl (fun s q hq => ?_) s) (Joins.foldl (fun s d hd => ?_) _)
  · exact .tail .refl rfl (.inr (.inr (.inl ⟨hq, ho⟩)))
  · exact .tail .refl rfl (.inr (.inr (.inr ⟨ho, hd⟩)))

theorem joins_joinNextObject (ho : o ∈ objects) (s : Solver) :
    Joins (edges.Asks objects) s (joinNextObject edges s o) := by
  unfold joinNextObject
  split
  · exact joins_joinObject ho s
  · split
    · exact .refl
    · exact joins_joinObject ho s

theorem joins_foldl_joinNextObject (edges : ClassEdges) (objects : List NodeId) (s : Solver) :
    Joins (edges.Asks objects) s (objects.foldl (joinNextObject edges) s) :=
  Joins.foldl (fun s _ ho => joins_joinNextObject ho s) s

theorem joins_joinObjects (edges : ClassEdges) (objects : List NodeId) (s : Solver) :
    Joins (edges.Asks objects) s (joinObjects edges s objects) := by
  cases objects with
  | nil => exact .refl
  | cons o objects =>
    refine (joins_joinObject List.mem_cons_self s).trans ?_
    refine (joins_foldl_joinNextObject edges objects _).mono ?_
    rintro a b (h | h | ⟨ha, hb⟩ | ⟨ha, hb⟩)
    · exact .inl h
    · exact .inr (.inl h)
    · exact .inr (.inr (.inl ⟨ha, List.mem_cons_of_mem o hb⟩))
    · exact .inr (.inr (.inr ⟨List.mem_cons_of_mem o ha, hb⟩))

/-- **Nothing is unified but what the constraints ask for.** -/
theorem joins_applyEdges (edges : ClassEdges) (objects : List NodeId) (s : Solver) :
    Joins (edges.Asks objects) s (applyEdges edges objects s) := by
  refine ((joins_joinObjects edges objects s).trans (Joins.foldl (fun s e he => ?_) _)).trans
    (Joins.foldl (fun s e he => ?_) _)
  · exact .tail .refl rfl (.inl he)
  · exact .tail .refl rfl (.inr (.inl he))

/-! ## All that the constraints ask for is unified -/

/-- A step over each element of a list establishes of each what a single step does, if sequences of
unifications keep it. -/
theorem holds_foldl {α : Type} {f : Solver → α → Solver} {P : Solver → α → Prop} {xs : List α}
    (hf : ∀ s, ∀ x ∈ xs, Joins R s (f s x))
    (hP : ∀ s, s.ValidBut held → ∀ x ∈ xs, P (f s x) x)
    (hmono : ∀ s t x, s.ValidBut held → Joins R s t → P s x → P t x)
    (hv : s.ValidBut held) : ∀ x ∈ xs, P (xs.foldl f s) x := by
  induction xs generalizing s with
  | nil => intro x hx; cases hx
  | cons y ys ih =>
    have hy := hf s y List.mem_cons_self
    have hvy := hy.validBut hv
    have hys : ∀ s, ∀ x ∈ ys, Joins R s (f s x) := fun s x hx =>
      hf s x (List.mem_cons_of_mem y hx)
    intro x hx
    rcases List.mem_cons.mp hx with rfl | hx
    · exact hmono _ _ x hvy (Joins.foldl hys (f s x)) (hP s hv x List.mem_cons_self)
    · exact ih hys (fun s hs x hx => hP s hs x (List.mem_cons_of_mem y hx)) hvy x hx

/-- Every source of a store and every destination of a load shares the class of `o`. -/
structure JoinedAt (edges : ClassEdges) (s : Solver) (o : NodeId) : Prop where
  stores : ∀ q ∈ edges.stores, s.Same q o
  loads : ∀ d ∈ edges.loads, s.Same o d

theorem JoinedAt.joins (hv : s.ValidBut held) (h : Joins R s t) (ho : JoinedAt edges s o) :
    JoinedAt edges t o :=
  ⟨fun q hq => h.same hv (ho.stores q hq), fun d hd => h.same hv (ho.loads d hd)⟩

/-- The loads come after the stores and split no class. -/
theorem joinedAt_joinObject (hv : s.ValidBut held) (edges : ClassEdges) (o : NodeId) :
    JoinedAt edges (joinObject edges s o) o := by
  have hstore : ∀ s, ∀ q ∈ edges.stores, Joins (fun _ b => b = o) s (joinStore o s q) :=
    fun s q _ => .tail .refl rfl rfl
  have hload : ∀ s, ∀ d ∈ edges.loads, Joins (fun a _ => a = o) s (joinLoad o s d) :=
    fun s d _ => .tail .refl rfl rfl
  have hv' := (Joins.foldl hstore s).validBut hv
  refine ⟨fun q hq => ?_, fun d hd => ?_⟩
  · refine (Joins.foldl hload _).same hv' ?_
    refine holds_foldl (P := fun s q => s.Same q o) hstore (fun s hs q _ => ?_)
      (fun s t q hs hst hq => hst.same hs hq) hv q hq
    exact same_unify (hs.count _).classes q o
  · refine holds_foldl (P := fun s d => s.Same o d) hload (fun s hs d _ => ?_)
      (fun s t d hs hst hd => hst.same hs hd) hv' d hd
    exact same_unify (hs.count _).classes o d

/-- The anchor is an end of a store or a load. -/
theorem mem_of_anchor? (h : anchor? edges = some a) : a ∈ edges.stores ∨ a ∈ edges.loads := by
  unfold anchor? at h
  cases hs : edges.stores with
  | nil =>
    rw [hs] at h
    exact .inr (List.mem_of_head? h)
  | cons q qs =>
    rw [hs] at h
    injection h with h
    exact .inl (h ▸ List.mem_cons_self)

/-- **The shortcut**: when all ends share the class of one object, an object in the class of the
anchor needs no unification. The anchor is an end, so its class is that of `first` and holds every
other end. -/
theorem JoinedAt.of_anchor {first : NodeId} (hfirst : JoinedAt edges s first)
    (ha : anchor? edges = some a) (hao : s.Same a o) : JoinedAt edges s o := by
  have hfo : s.Same first o := by
    rcases mem_of_anchor? ha with h | h
    · exact (hfirst.stores a h).symm.trans hao
    · exact (hfirst.loads a h).trans hao
  exact ⟨fun q hq => (hfirst.stores q hq).trans hfo,
    fun d hd => hfo.symm.trans (hfirst.loads d hd)⟩

theorem joinedAt_joinNextObject (hv : s.ValidBut held) {first : NodeId}
    (hfirst : JoinedAt edges s first) (o : NodeId) :
    JoinedAt edges (joinNextObject edges s o) o := by
  unfold joinNextObject
  split
  · exact joinedAt_joinObject hv edges o
  · rename_i anchor hanchor
    split
    · exact hfirst.of_anchor hanchor ‹_›
    · exact joinedAt_joinObject hv edges o

/-- One joined object stays joined all along, so that the shortcut is sound at every step. -/
theorem joinedAt_foldl_joinNextObject (hv : s.ValidBut held) {first : NodeId}
    (hfirst : JoinedAt edges s first) (ho : o ∈ objects) :
    JoinedAt edges (objects.foldl (joinNextObject edges) s) o := by
  induction objects generalizing s with
  | nil => cases ho
  | cons x xs ih =>
    have hx : Joins (edges.Asks (x :: xs)) s (joinNextObject edges s x) :=
      joins_joinNextObject List.mem_cons_self s
    rcases List.mem_cons.mp ho with rfl | ho
    · exact (joinedAt_joinNextObject hv hfirst o).joins (hx.validBut hv)
        (joins_foldl_joinNextObject edges xs _)
    · exact ih (hx.validBut hv) (hfirst.joins hv hx) ho

theorem joinedAt_joinObjects (hv : s.ValidBut held) (ho : o ∈ objects) :
    JoinedAt edges (joinObjects edges s objects) o := by
  cases objects with
  | nil => cases ho
  | cons first objects =>
    have hfirst := joinedAt_joinObject hv edges first
    have hjoins : Joins (edges.Asks [first]) s (joinObject edges s first) :=
      joins_joinObject (List.mem_singleton_self first) s
    rcases List.mem_cons.mp ho with rfl | ho
    · exact hfirst.joins (hjoins.validBut hv) (joins_foldl_joinNextObject edges objects _)
    · exact joinedAt_foldl_joinNextObject (hjoins.validBut hv) hfirst ho

/-- **All that the constraints ask for is unified.** What an earlier part unified, the later parts
keep. -/
theorem same_applyEdges (hv : s.ValidBut held) (hab : edges.Asks objects a b) :
    (applyEdges edges objects s).Same a b := by
  have hobjects := joins_joinObjects edges objects s
  have hcopy : ∀ s, ∀ e ∈ edges.copies, Joins (fun _ _ => True) s (joinCopy s e) :=
    fun s e _ => .tail .refl rfl trivial
  have hgep : ∀ s, ∀ e ∈ edges.geps, Joins (fun _ _ => True) s (joinGep s e) :=
    fun s e _ => .tail .refl rfl trivial
  have hv₁ := hobjects.validBut hv
  have hv₂ := (Joins.foldl hcopy (joinObjects edges s objects)).validBut hv₁
  have hmono : ∀ s t, ∀ e : NodeId × NodeId, s.ValidBut held → Joins (fun _ _ => True) s t →
      s.Same e.1 e.2 → t.Same e.1 e.2 := fun s t e hs hst he => hst.same hs he
  have hlater : ∀ {x y}, (joinObjects edges s objects).Same x y →
      (applyEdges edges objects s).Same x y := fun hxy =>
    (Joins.foldl hgep _).same hv₂ ((Joins.foldl hcopy _).same hv₁ hxy)
  rcases hab with hab | hab | ⟨ha, hb⟩ | ⟨ha, hb⟩
  · refine (Joins.foldl hgep _).same hv₂ ?_
    exact holds_foldl (P := fun s (e : NodeId × NodeId) => s.Same e.1 e.2) hcopy
      (fun s hs e _ => same_unify (hs.count _).classes e.1 e.2) hmono hv₁ (a, b) hab
  · exact holds_foldl (P := fun s (e : NodeId × NodeId) => s.Same e.1 e.2) hgep
      (fun s hs e _ => same_unify (hs.count _).classes e.1 e.2) hmono hv₂ (a, b) hab
  · exact hlater ((joinedAt_joinObjects hv hb).stores a ha)
  · exact hlater ((joinedAt_joinObjects hv ha).loads b hb)

/-! ## Taking the constraints of a class -/

/-- Replacing the list of a class by a part of it: what is left out counts as done. -/
theorem Kept.replace {α : Type} {part : ClassEdges.Part α} {done : α → Prop}
    (h : Kept part done s) (rep : NodeId) (rest : ClassEdges)
    (hrest : ∀ e ∈ part.read rest, e ∈ part.read (s.edgesOf rep)) :
    Kept part (fun e => done e ∨ (e ∈ part.read (s.edgesOf rep) ∧ ¬ e ∈ part.read rest))
      { s with edges := s.edges.insert rep rest } := by
  have hedges : ∀ r, edgesOf { s with edges := s.edges.insert rep rest } r =
      if r = rep then rest else s.edgesOf r := by
    intro r
    by_cases hr : r = rep
    · simp [edgesOf, hr]
    · simp [edgesOf, hr, Std.ExtTreeMap.getD_insert, Ne.symm hr]
  refine ⟨fun {r e} he => ?_, fun {n e} hn he => ?_⟩
  · rw [hedges] at he
    split at he
    · rename_i hr
      exact h.source (hr ▸ hrest e he)
    · exact h.source he
  · rw [hedges]
    rcases h.kept hn he with hw | hd
    · by_cases hr : s.representative n = rep
      · rw [hr] at hw
        change _ ∈ part.read (if s.representative n = rep then _ else _) ∨ _
        rw [if_pos hr]
        by_cases hin : e ∈ part.read rest
        · exact .inl hin
        · exact .inr (.inr ⟨hw, hin⟩)
      · change _ ∈ part.read (if s.representative n = rep then _ else _) ∨ _
        rw [if_neg hr]
        exact .inl hw
    · exact .inr (.inl hd)

/-- The copies and field addresses that are taken from a class are held aside. Of copies and field
addresses nothing lasts, of loads and stores everything does. -/
theorem ValidBut.take (hv : s.Valid) (rep : NodeId) :
    { s with edges := s.edges.insert rep (s.edgesOf rep).lasting }.ValidBut (s.edgesOf rep) := by
  have hflow : ∀ part : ClassEdges.Part (NodeId × NodeId),
      part.read (s.edgesOf rep).lasting = [] →
      Kept part (fun e => s.Same e.1 e.2 ∨ e ∈ part.read {}) s →
      Kept part (fun e => s.Same e.1 e.2 ∨ e ∈ part.read (s.edgesOf rep))
        { s with edges := s.edges.insert rep (s.edgesOf rep).lasting } := by
    intro part hnil hk
    refine (hk.replace rep (s.edgesOf rep).lasting fun e he => ?_).mono ?_
    · rw [hnil] at he
      cases he
    · rintro e ((h | h) | h)
      · exact .inl h
      · exact absurd h (part.not_mem_read_empty e)
      · exact .inr h.1
  have hmemory : ∀ part : ClassEdges.Part NodeId,
      part.read (s.edgesOf rep).lasting = part.read (s.edgesOf rep) →
      Kept part (fun _ => False) s →
      Kept part (fun _ => False)
        { s with edges := s.edges.insert rep (s.edgesOf rep).lasting } := by
    intro part hall hk
    refine (hk.replace rep (s.edgesOf rep).lasting fun e he => hall ▸ he).mono ?_
    rintro e (h | h)
    · exact h
    · exact h.2 (hall ▸ h.1)
  exact ⟨hv.classes, hv.worklist, hv.graph, hflow .copies rfl hv.edges.copies,
    hflow .geps rfl hv.edges.geps, hmemory .loads rfl hv.edges.loads,
    hmemory .stores rfl hv.edges.stores, hv.edges.loaded⟩

/-- What is held aside can be let go when it was applied. -/
theorem ValidBut.release (hv : s.ValidBut held) (hcopies : ∀ e ∈ held.copies, s.Same e.1 e.2)
    (hgeps : ∀ e ∈ held.geps, s.Same e.1 e.2) : s.Valid := by
  refine ⟨hv.classes, hv.worklist, hv.graph, ?_, ?_, hv.edges.loads, hv.edges.stores,
    hv.edges.loaded⟩
  · exact hv.edges.copies.mono fun e he => .inl (he.elim id (hcopies e))
  · exact hv.edges.geps.mono fun e he => .inl (he.elim id (hgeps e))

/-! ## Treating a class -/

/-- The state in which the constraints of a class are applied. -/
def taken (s : Solver) (rep : NodeId) : Solver :=
  { s.loadEdges rep with
    edges := (s.loadEdges rep).edges.insert rep ((s.loadEdges rep).edgesOf rep).lasting }

/-- A class whose constraints were taken is left with loads and stores. -/
theorem spent_taken (s : Solver) (rep : NodeId) : ((s.taken rep).edgesOf rep).Spent := by
  rw [taken, edgesOf, Std.ExtTreeMap.getD_insert_self]
  exact ClassEdges.spent_lasting _

/-- Taking the constraints of a class leaves those of other classes alone. -/
theorem edgesOf_taken (h : n ≠ rep) : (s.taken rep).edgesOf n = (s.loadEdges rep).edgesOf n := by
  simp [taken, edgesOf, Std.ExtTreeMap.getD_insert, Ne.symm h]

/-- **What treating a class does**: it is refused, there is nothing to do, or the constraints are
taken and applied. -/
theorem treat_cases (s : Solver) (rep : NodeId) :
    (((s.treat rep).1 = s ∨ (s.treat rep).1 = s.loadEdges rep) ∧
      ∃ e, (s.treat rep).2 = .error e) ∨
    (s.graph.hasNode rep = true ∧ (s.loadEdges rep).edgesOf rep = {} ∧
      s.treat rep = (s.loadEdges rep, .ok ())) ∨
    (s.graph.hasNode rep = true ∧
      (((s.loadEdges rep).edgesOf rep).touchesMemory = true →
        ∀ o ∈ s.pointsTo rep, s.graph.hasNode o = true) ∧
      s.treat rep =
        (applyEdges ((s.loadEdges rep).edgesOf rep) (s.pointsTo rep).toList (s.taken rep),
          .ok ())) := by
  have hgraph : (s.loadEdges rep).graph = s.graph := by rw [loadEdges_eq]
  have hpts : (s.loadEdges rep).pointsTo rep = s.pointsTo rep := by rw [loadEdges_eq]; rfl
  unfold treat
  cases hrep : s.graph.missing? [rep] with
  | some n => exact .inl ⟨.inl rfl, .unknownNode n, rfl⟩
  | none =>
    have hnode : s.graph.hasNode rep = true :=
      ConstraintGraph.missing?_eq_none.mp hrep rep (List.mem_singleton_self rep)
    dsimp only
    cases hedges : (s.loadEdges rep).edges[rep]? with
    | none =>
      refine .inr (.inl ⟨hnode, ?_, rfl⟩)
      rw [edgesOf, Std.ExtTreeMap.getD_eq_getD_getElem?, hedges, Option.getD_none]
    | some edges =>
      have hedgesOf : (s.loadEdges rep).edgesOf rep = edges := by
        rw [edgesOf, Std.ExtTreeMap.getD_eq_getD_getElem?, hedges, Option.getD_some]
      dsimp only
      split
      · rename_i n _
        exact .inl ⟨.inr rfl, .unknownNode n, rfl⟩
      · rename_i hmissing
        refine .inr (.inr ⟨hnode, fun htouch o ho => ?_, ?_⟩)
        · rw [hedgesOf] at htouch
          rw [htouch, if_pos rfl, hpts, hgraph] at hmissing
          exact ConstraintGraph.missing?_eq_none.mp hmissing o ho
        · rw [taken, hedgesOf, hpts]

/-- The pairs of nodes that the constraints of the graph, with the sets as they are, ask to
unify. -/
structure Demands (s : Solver) (a b : NodeId) : Prop where
  left : s.graph.hasNode a = true
  right : s.graph.hasNode b = true
  rule : s.graph.hasEdge .copy a b = true ∨ s.graph.hasEdge .gep a b = true ∨
    (∃ p, s.graph.hasEdge .store a p = true ∧ b ∈ s.pointsTo p) ∨
    (∃ p, s.graph.hasEdge .load p b = true ∧ a ∈ s.pointsTo p)

/-- The constraints at a class are demands of the graph. Each comes from a node of the class, which
has the set of the class. -/
theorem demands_of_asks (hv : s.Valid) (hrep : s.representative rep = rep)
    (hknown : (s.edgesOf rep).touchesMemory = true → ∀ o ∈ s.pointsTo rep, s.graph.hasNode o = true)
    (hab : (s.edgesOf rep).Asks (s.pointsTo rep).toList a b) : s.Demands a b := by
  have hpts : ∀ {n}, s.representative n = rep → s.pointsTo n = s.pointsTo rep := by
    intro n hn
    rw [pointsTo, pointsTo, hn, hrep]
  rcases hab with hab | hab | ⟨ha, hb⟩ | ⟨ha, hb⟩
  · obtain ⟨n, -, -, hmem⟩ := hv.edges.copies.source hab
    obtain ⟨d, hd, heq⟩ := List.mem_map.mp hmem
    obtain ⟨rfl, rfl⟩ := Prod.mk.inj heq
    have hedge := hv.graph.mem_copyOut.mp hd
    exact ⟨(hv.graph.ends hedge).1, (hv.graph.ends hedge).2, .inl hedge⟩
  · obtain ⟨n, -, -, hmem⟩ := hv.edges.geps.source hab
    obtain ⟨d, hd, heq⟩ := List.mem_map.mp hmem
    obtain ⟨rfl, rfl⟩ := Prod.mk.inj heq
    have hedge := hv.graph.mem_gepOut.mp hd
    exact ⟨(hv.graph.ends hedge).1, (hv.graph.ends hedge).2, .inr (.inl hedge)⟩
  · obtain ⟨p, -, hp, hmem⟩ := hv.edges.stores.source ha
    have hedge := hv.graph.mem_storeIn.mp hmem
    have htouch : (s.edgesOf rep).touchesMemory = true := by
      have := List.isEmpty_eq_false_iff.mpr (List.ne_nil_of_mem ha)
      simp [ClassEdges.touchesMemory, this]
    refine ⟨(hv.graph.ends hedge).1, hknown htouch b hb, .inr (.inr (.inl ⟨p, hedge, ?_⟩))⟩
    rw [hpts hp]
    exact hb
  · obtain ⟨p, -, hp, hmem⟩ := hv.edges.loads.source hb
    have hedge := hv.graph.mem_loadOut.mp hmem
    have htouch : (s.edgesOf rep).touchesMemory = true := by
      have := List.isEmpty_eq_false_iff.mpr (List.ne_nil_of_mem hb)
      simp [ClassEdges.touchesMemory, this]
    refine ⟨hknown htouch a ha, (hv.graph.ends hedge).2, .inr (.inr (.inr ⟨p, hedge, ?_⟩))⟩
    rw [hpts hp]
    exact ha

/-- The constraints of a class that was loaded are demands. Loading moves constraints only, so graph
and sets ask for the same before and after it. -/
theorem demands_of_asks_loadEdges (hv : s.Valid) (hrep : s.representative rep = rep)
    (hknown : ((s.loadEdges rep).edgesOf rep).touchesMemory = true →
      ∀ o ∈ s.pointsTo rep, s.graph.hasNode o = true)
    (hab : ((s.loadEdges rep).edgesOf rep).Asks (s.pointsTo rep).toList a b) : s.Demands a b := by
  have hload := loadEdges_eq s rep
  have hpts : (s.loadEdges rep).pointsTo rep = s.pointsTo rep := by
    rw [hload]
    rfl
  have hgraph : (s.loadEdges rep).graph = s.graph := by rw [hload]
  rw [← hpts] at hab hknown
  rw [← hgraph] at hknown
  have hd : (s.loadEdges rep).Demands a b := by
    refine demands_of_asks (hv.loadEdges rep) ?_ hknown hab
    rwa [hload]
  rw [hload] at hd
  exact ⟨hd.left, hd.right, hd.rule⟩

theorem joins_taken (hv : s.Valid) (hrep : s.representative rep = rep)
    (hknown : ((s.loadEdges rep).edgesOf rep).touchesMemory = true →
      ∀ o ∈ s.pointsTo rep, s.graph.hasNode o = true) :
    Joins s.Demands (s.taken rep)
      (applyEdges ((s.loadEdges rep).edgesOf rep) (s.pointsTo rep).toList (s.taken rep)) :=
  (joins_applyEdges _ _ _).mono fun _ _ => demands_of_asks_loadEdges hv hrep hknown

/-- **Treating a class unifies demanded pairs and nothing else**, after it has moved constraints
from the graph to the class, and those of the class that are done with aside. -/
theorem joins_treat (hv : s.Valid) (hrep : s.representative rep = rep) :
    ∃ edges loaded held, { s with edges, loaded }.ValidBut held ∧
      Joins s.Demands { s with edges, loaded } (s.treat rep).1 := by
  have hload := loadEdges_eq s rep
  have hvl := hv.loadEdges rep
  rcases s.treat_cases rep with ⟨heq | heq, -⟩ | ⟨-, -, heq⟩ | ⟨-, hknown, heq⟩
  · refine ⟨s.edges, s.loaded, {}, hv, ?_⟩
    rw [heq]
    exact .refl
  · refine ⟨(s.loadEdges rep).edges, (s.loadEdges rep).loaded, {}, ?_⟩
    rw [heq, ← hload]
    exact ⟨hvl, .refl⟩
  · refine ⟨(s.loadEdges rep).edges, (s.loadEdges rep).loaded, {}, ?_⟩
    rw [heq, ← hload]
    exact ⟨hvl, .refl⟩
  · have htaken : s.taken rep =
        { s with edges := (s.taken rep).edges, loaded := (s.taken rep).loaded } := by
      rw [taken, hload]
    refine ⟨(s.taken rep).edges, (s.taken rep).loaded, (s.loadEdges rep).edgesOf rep, ?_⟩
    rw [heq, ← htaken]
    exact ⟨ValidBut.take hvl rep, joins_taken hv hrep hknown⟩

/-- **Treating a class keeps the state valid.** The copies and field addresses held aside were
applied, so they may be forgotten. -/
theorem ValidBut.treat (hv : s.Valid) (hrep : s.representative rep = rep) :
    (s.treat rep).1.Valid := by
  have hvl := hv.loadEdges rep
  rcases s.treat_cases rep with ⟨heq | heq, -⟩ | ⟨-, -, heq⟩ | ⟨-, hknown, heq⟩
  · rwa [heq]
  · rwa [heq]
  · rwa [heq]
  · have htaken := ValidBut.take hvl rep
    rw [heq]
    refine ((joins_taken hv hrep hknown).validBut htaken).release ?_ ?_
    · exact fun e he => same_applyEdges htaken (.inl he)
    · exact fun e he => same_applyEdges htaken (.inr (.inl he))

/-! ## Settled nodes -/

/-- All constraints of a node hold: its copies and field addresses are unified, and so are its loads
and stores with every object of its set. The representative of a node with loads or stores is a node
of the graph, as a class without one is never treated. -/
structure Settled (s : Solver) (n : NodeId) : Prop where
  flow : ∀ {d}, s.graph.hasEdge .copy n d = true ∨ s.graph.hasEdge .gep n d = true → s.Same n d
  memory : ∀ {d}, s.graph.hasEdge .load n d = true ∨ s.graph.hasEdge .store d n = true →
    s.graph.hasNode (s.representative n) = true ∧ ∀ o ∈ s.pointsTo n, s.Same o d

/-- A settled node whose class is as it was stays settled. -/
theorem Settled.mono (h : s.Settled n) (hgraph : t.graph = s.graph)
    (hsame : ∀ {x y}, s.Same x y → t.Same x y) (hrep : t.representative n = s.representative n)
    (hpts : ∀ o, o ∈ t.pointsTo n ↔ o ∈ s.pointsTo n) : t.Settled n := by
  refine ⟨fun {d} hd => ?_, fun {d} hd => ?_⟩
  · rw [hgraph] at hd
    exact hsame (h.flow hd)
  · rw [hgraph] at hd ⊢
    rw [hrep]
    exact ⟨(h.memory hd).1, fun o ho => hsame ((h.memory hd).2 o ((hpts o).mp ho))⟩

/-- **A settled node whose class is as it was stays settled**, whatever copies others were given. -/
theorem Unmoved.settled (h : s.Unmoved t n) (hs : s.graph.Valid) (ht : t.graph.Valid)
    (hn : s.Settled n) : t.Settled n := by
  have hcopies := congrArg ClassEdges.copies h.constraints
  have hgeps := congrArg ClassEdges.geps h.constraints
  have hloads : t.graph.loadOut n = s.graph.loadOut n := congrArg ClassEdges.loads h.constraints
  have hstores : t.graph.storeIn n = s.graph.storeIn n := congrArg ClassEdges.stores h.constraints
  refine ⟨fun {d} hd => h.same (hn.flow ?_), fun {d} hd => ?_⟩
  · rwa [← hs.mem_copies, ← hs.mem_geps, ← hcopies, ← hgeps, ht.mem_copies, ht.mem_geps]
  · have hd' : s.graph.hasEdge .load n d = true ∨ s.graph.hasEdge .store d n = true := by
      rwa [← hs.mem_loadOut, ← hs.mem_storeIn, ← hloads, ← hstores, ht.mem_loadOut, ht.mem_storeIn]
    obtain ⟨hnode, hall⟩ := hn.memory hd'
    rw [h.representative]
    exact ⟨h.hasNode hnode, fun o ho => h.same (hall o ((h.pointsTo hnode o).mp ho))⟩

/-- A node of a class whose constraints all hold is settled. -/
theorem settled_of_asks (hv : s.Valid) (hn : s.representative n = rep)
    (hloaded : s.loaded.contains n = true) (hnode : s.graph.hasNode rep = true)
    (hgraph : t.graph = s.graph) (hsame : ∀ {x y}, s.Same x y → t.Same x y)
    (hrep : t.representative n = rep) (hpts : ∀ o, o ∈ t.pointsTo n ↔ o ∈ s.pointsTo n)
    (hasks : ∀ a b, (s.edgesOf rep).Asks (s.pointsTo n).toList a b → t.Same a b) :
    t.Settled n := by
  have hwaits : ∀ {α : Type} {part : ClassEdges.Part α} {done : α → Prop} {e : α},
      Kept part done s → e ∈ part.read (s.graph.edgesAt n) →
        e ∈ part.read (s.edgesOf rep) ∨ done e :=
    fun hk he => hn ▸ hk.kept hloaded he
  refine ⟨fun {d} hd => ?_, fun {d} hd => ?_⟩
  · rw [hgraph] at hd
    rcases hd with hd | hd
    · rcases hwaits hv.edges.copies (hv.graph.mem_copies.mpr hd) with h | h | h
      · exact hasks n d (.inl h)
      · exact hsame h
      · cases h
    · rcases hwaits hv.edges.geps (hv.graph.mem_geps.mpr hd) with h | h | h
      · exact hasks n d (.inr (.inl h))
      · exact hsame h
      · cases h
  · rw [hgraph] at hd ⊢
    rw [hrep]
    refine ⟨hnode, fun o ho => ?_⟩
    have ho' := (hpts o).mp ho
    rcases hd with hd | hd
    · have h := (hwaits hv.edges.loads (hv.graph.mem_loadOut.mpr hd)).resolve_right id
      exact hasks o d (.inr (.inr (.inr ⟨ho', h⟩)))
    · have h := (hwaits hv.edges.stores (hv.graph.mem_storeIn.mpr hd)).resolve_right id
      exact (hasks d o (.inr (.inr (.inl ⟨h, ho'⟩)))).symm

/-- A class that is treated without an error has its constraints unified, all of them and nothing
else; before that, copies and field addresses have left it. -/
theorem treat_eq_ok (hv : s.Valid) (hrep : s.representative rep = rep)
    (hok : (s.treat rep).2 = .ok ()) :
    s.graph.hasNode rep = true ∧ ∃ edges held,
      (edgesOf { s.loadEdges rep with edges } rep).Spent ∧
      { s.loadEdges rep with edges }.ValidBut held ∧
      Joins s.Demands { s.loadEdges rep with edges } (s.treat rep).1 ∧
      ∀ a b, ((s.loadEdges rep).edgesOf rep).Asks (s.pointsTo rep).toList a b →
        (s.treat rep).1.Same a b := by
  have hvl := hv.loadEdges rep
  rcases s.treat_cases rep with ⟨-, e, he⟩ | ⟨hnode, hempty, heq⟩ | ⟨hnode, hknown, heq⟩
  · rw [he] at hok
    cases hok
  · rw [heq, hempty]
    refine ⟨hnode, (s.loadEdges rep).edges, {}, ?_, hvl, .refl, fun a b hab => ?_⟩
    · change ((s.loadEdges rep).edgesOf rep).Spent
      rw [hempty]
      exact ⟨rfl, rfl⟩
    · rcases hab with hab | hab | ⟨hab, -⟩ | ⟨-, hab⟩ <;> cases hab
  · have htaken := ValidBut.take hvl rep
    rw [heq]
    exact ⟨hnode, _, _, s.spent_taken rep, htaken, joins_taken hv hrep hknown,
      fun a b hab => same_applyEdges htaken hab⟩

/-- Once a class was treated, all of it is loaded: its representative is, and so are its other
members, as they share a class. -/
theorem loaded_of_same (hv : s.Valid) (h : s.Same n rep) :
    (s.loadEdges rep).loaded.contains n = true := by
  rw [loaded_loadEdges]
  by_cases heq : n = rep
  · exact .inl heq
  · exact .inr (hv.edges.loaded h heq)

/-- **A treated class is settled or waits again.** A class that does not wait was not merged: its
representative and its set are as they were. -/
theorem waiting_or_settled_treat (hv : s.Valid) (hrep : s.representative rep = rep)
    (hok : (s.treat rep).2 = .ok ()) (h : s.Same n rep) :
    (s.treat rep).1.Waiting n ∨ (s.treat rep).1.Settled n := by
  obtain ⟨hnode, edges, held, -, hvalid, hjoins, hasks⟩ := treat_eq_ok hv hrep hok
  have hload := loadEdges_eq s rep
  have hgraph : (s.loadEdges rep).graph = s.graph := by rw [hload]
  have hclasses : (s.loadEdges rep).classes = s.classes := by rw [hload]
  have hpts : (s.loadEdges rep).pointsTo n = s.pointsTo n := by
    rw [hload]
    rfl
  have hn : (s.loadEdges rep).representative n = rep :=
    (representative_congr hclasses n).trans (Eq.trans h hrep)
  have hnode' : (s.loadEdges rep).graph.hasNode ((s.loadEdges rep).representative n) = true := by
    rwa [hn, hgraph]
  refine (Noticed.joins hjoins hvalid n).unmoved.imp_right fun hmoved => ?_
  refine settled_of_asks (hv.loadEdges rep) hn (loaded_of_same hv h) (hgraph ▸ hnode)
    hjoins.frame.graph hmoved.same (hmoved.representative.trans hn) (hmoved.pointsTo hnode')
    fun a b hab => ?_
  rw [hpts, pointsTo, h, ← pointsTo] at hab
  exact hasks a b hab

/-! ## The other classes -/

/-- Loading a node touches its own class only. -/
theorem Unmoved.loadEdges (h : ¬ s.Same n m) : s.Unmoved (s.loadEdges m) n := by
  have hedges := edgesOf_loadEdges s m (s.representative n)
  have hloaded := loaded_loadEdges (s := s) (n := m) (m := n)
  rw [if_neg fun hr => h hr.1] at hedges
  have hne : n ≠ m := by
    rintro rfl
    exact h (.refl s n)
  have hcontains : (s.loadEdges m).loaded.contains n = s.loaded.contains n := by
    rw [Bool.eq_iff_iff, hloaded]
    exact or_iff_right hne
  rw [loadEdges_eq] at hedges hcontains ⊢
  exact ⟨id, Nat.le_refl _, rfl, fun _ _ => Iff.rfl, hedges, hcontains, rfl⟩

/-- Taking the constraints of a class touches that class only. -/
theorem Noticed.taken (hrep : s.representative rep = rep) (h : ¬ s.Same n rep) :
    s.Noticed (s.taken rep) n := by
  have hload := Unmoved.loadEdges h
  have hne : s.representative n ≠ rep := fun hn => h (Eq.trans hn hrep.symm)
  refine ⟨fun hw => ?_, .inr ⟨hload.same, hload.nodeCount, hload.representative, hload.pointsTo,
    (edgesOf_taken hne).trans hload.edges, hload.loaded, hload.constraints⟩⟩
  rwa [Solver.taken, loadEdges_eq]

/-- **Treating a class is noticed by every other class** that it merges. -/
theorem Noticed.treat (hv : s.Valid) (hrep : s.representative rep = rep) (h : ¬ s.Same n rep) :
    s.Noticed (s.treat rep).1 n := by
  have hload : s.Noticed (s.loadEdges rep) n := by
    refine ⟨fun hw => ?_, .inr (.loadEdges h)⟩
    rwa [loadEdges_eq]
  rcases s.treat_cases rep with ⟨heq | heq, -⟩ | ⟨-, -, heq⟩ | ⟨-, hknown, heq⟩
  · rw [heq]
    exact .refl s n
  · rw [heq]
    exact hload
  · rw [heq]
    exact hload
  · rw [heq]
    exact (Noticed.taken hrep h).trans
      (.joins (joins_taken hv hrep hknown) (ValidBut.take (hv.loadEdges rep) rep) n)

/-- **Treating a class does not make a drain longer.** -/
theorem pressure_treat_le (hv : s.Valid) (hrep : s.representative rep = rep) :
    (s.treat rep).1.pressure ≤ s.pressure := by
  obtain ⟨edges, loaded, held, hvalid, hjoins⟩ := joins_treat hv hrep
  exact hjoins.pressure_le hvalid fun a b hab => ⟨hab.left, hab.right⟩

theorem Frame.treat (hv : s.Valid) (hrep : s.representative rep = rep) :
    s.Frame (s.treat rep).1 := by
  obtain ⟨edges, loaded, held, -, hjoins⟩ := joins_treat hv hrep
  have hf := hjoins.frame
  exact ⟨hf.settings, hf.graph, hf.outsideAddresses, hf.functions, hf.sites, hf.calls,
    hf.allocations, hf.rounds, hf.callEdges, hf.dummies, hf.seeded⟩

end Solver

end PointsTo
