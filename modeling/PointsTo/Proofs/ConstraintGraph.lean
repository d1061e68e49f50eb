import PointsTo.ConstraintGraph

/-!
# Valid constraint graphs

The three tables of an edge kind are kept by hand, so nothing but the way a graph is built makes
them agree. A graph is valid when they do and when every edge joins nodes of the graph; every graph
built by adding nodes and constraints is.

## Main definitions

* `EdgeTable.Valid`: look-up, list and index hold the same edges
* `ConstraintGraph.Valid`: valid tables, and both ends of every edge in the graph
* `ConstraintGraph.Built`: the graphs that can be made

## Main results

* `Built.keeps`: what every node and every edge added keeps holds of every graph that can be made
* `Built.valid`: every graph that can be made is valid
* `addCopy_cases`: what adding a copy does
* `hasEdge_ofConstraints`: the edges of a graph made from a list of constraints
-/

namespace PointsTo

/-! ## Edge tables -/

namespace EdgeTable

variable {t : EdgeTable} {k m : NodeId}

/-- Look-up, list and index hold the same edges. -/
structure Valid (t : EdgeTable) : Prop where
  /-- The look-up finds the edges held. -/
  mem_get : ∀ {k m}, m ∈ t.get k ↔ t.contains k m = true
  /-- The list holds the edges held. -/
  mem_toList : ∀ {k m}, (k, m) ∈ t.toList ↔ t.contains k m = true

theorem valid_empty : Valid {} where
  mem_get := by simp [get, contains]
  mem_toList := by simp [toList, contains]

theorem contains_add_iff {key other : NodeId} :
    (t.add key other).contains k m = true ↔ (k = key ∧ m = other) ∨ t.contains k m = true := by
  simp

theorem Valid.add (h : t.Valid) (key other : NodeId) : (t.add key other).Valid where
  mem_get {k m} := by
    rw [contains_add_iff, get_add]
    by_cases hk : k = key
    · subst hk
      simp [h.mem_get, or_comm]
    · simp [hk, h.mem_get]
  mem_toList {k m} := by
    rw [contains_add_iff, toList_add, List.mem_append, h.mem_toList]
    simp [or_comm]

end EdgeTable

namespace ConstraintGraph

variable {g g' : ConstraintGraph} {kind kind' : ConstraintKind} {src dst a b : NodeId}

/-! ## Nodes and tables -/

theorem hasNode_iff {n : NodeId} : g.hasNode n = true ↔ n < g.nodeCount := by simp [hasNode]

theorem mem_nodeIds {n : NodeId} : n ∈ g.nodeIds ↔ g.hasNode n = true := by
  rw [nodeIds, List.mem_range, hasNode_iff]

theorem missing?_eq_none {nodes : List NodeId} :
    g.missing? nodes = none ↔ ∀ n ∈ nodes, g.hasNode n = true := by
  simp [missing?]

@[simp] theorem kinds_setTable (g : ConstraintGraph) (kind : ConstraintKind) (t : EdgeTable) :
    (g.setTable kind t).kinds = g.kinds := by
  cases kind <;> rfl

theorem table_setTable (g : ConstraintGraph) (kind kind' : ConstraintKind) (t : EdgeTable) :
    (g.setTable kind t).table kind' = if kind' = kind then t else g.table kind' := by
  cases kind <;> cases kind' <;> rfl

theorem oriented_inj : oriented kind a b = oriented kind src dst ↔ a = src ∧ b = dst := by
  cases kind <;> simp [oriented, and_comm]

@[simp] theorem table_addNode (g : ConstraintGraph) (kind : NodeKind) (k : ConstraintKind) :
    (g.addNode kind).1.table k = g.table k := by
  cases k <;> rfl

@[simp] theorem nodeCount_addNode (g : ConstraintGraph) (kind : NodeKind) :
    (g.addNode kind).1.nodeCount = g.nodeCount + 1 := by
  simp [addNode, nodeCount]

/-! ## Adding an edge -/

@[simp] theorem kinds_addEdge (g : ConstraintGraph) (kind : ConstraintKind) (src dst : NodeId) :
    (g.addEdge kind src dst).1.kinds = g.kinds := by
  unfold addEdge
  split <;> simp

theorem nodeCount_addEdge (g : ConstraintGraph) (kind : ConstraintKind) (src dst : NodeId) :
    (g.addEdge kind src dst).1.nodeCount = g.nodeCount :=
  congrArg Array.size (kinds_addEdge ..)

/-- After an edge was added, the graph holds it unless it says nothing, and what it held before.
Tables are keyed by the end that the kind asks for, so the two edges are compared when turned that
way. -/
theorem hasEdge_addEdge :
    (g.addEdge kind src dst).1.hasEdge kind' a b = true ↔
      (kind' = kind ∧ a = src ∧ b = dst ∧ isIdle kind src dst = false) ∨
        g.hasEdge kind' a b = true := by
  unfold addEdge
  split
  · rename_i h
    rw [Bool.or_eq_true] at h
    constructor
    · exact Or.inr
    · rintro (⟨rfl, rfl, rfl, hidle⟩ | h')
      · exact h.resolve_left (by simp [hidle])
      · exact h'
  · rename_i h
    rw [Bool.or_eq_true, not_or, Bool.not_eq_true] at h
    by_cases hk : kind' = kind
    · subst hk
      simp only [hasEdge, table_setTable, if_true, EdgeTable.contains_add_iff]
      rw [← Prod.ext_iff (x := oriented kind' a b), oriented_inj]
      simp [h.1]
    · simp [hasEdge, table_setTable, hk]

/-! ## Valid graphs -/

/-- The tables agree, and every edge joins nodes of the graph. -/
structure Valid (g : ConstraintGraph) : Prop where
  /-- The tables of each kind agree. -/
  table : ∀ kind, (g.table kind).Valid
  /-- Both ends of an edge are nodes of the graph. -/
  ends : ∀ {kind src dst}, g.hasEdge kind src dst = true →
    g.hasNode src = true ∧ g.hasNode dst = true

theorem valid_ofKinds (kinds : List NodeKind) : (ofKinds kinds).Valid where
  table kind := by cases kind <;> exact EdgeTable.valid_empty
  ends {kind src dst} h := by cases kind <;> simp [hasEdge, table, ofKinds, EdgeTable.contains] at h

theorem Valid.addNode (h : g.Valid) (kind : NodeKind) : (g.addNode kind).1.Valid where
  table k := by
    rw [table_addNode]
    exact h.table k
  ends {k src dst} he := by
    have hg : g.hasEdge k src dst = true := by rwa [hasEdge, table_addNode] at he
    obtain ⟨hsrc, hdst⟩ := h.ends hg
    simp only [hasNode_iff, nodeCount_addNode] at hsrc hdst ⊢
    exact ⟨Nat.lt_succ_of_lt hsrc, Nat.lt_succ_of_lt hdst⟩

theorem Valid.addEdge (h : g.Valid) (hsrc : g.hasNode src = true) (hdst : g.hasNode dst = true) :
    (g.addEdge kind src dst).1.Valid where
  table k := by
    unfold ConstraintGraph.addEdge
    split
    · exact h.table k
    · rw [table_setTable]
      split
      · exact (h.table kind).add _ _
      · exact h.table k
  ends {k a b} he := by
    simp only [hasNode_iff, nodeCount_addEdge] at hsrc hdst ⊢
    rcases hasEdge_addEdge.mp he with ⟨-, rfl, rfl, -⟩ | he
    · exact ⟨hsrc, hdst⟩
    · simpa only [hasNode_iff] using h.ends he

theorem Valid.mem_copyOut (h : g.Valid) : b ∈ g.copyOut a ↔ g.hasEdge .copy a b = true :=
  (h.table .copy).mem_get

theorem Valid.mem_gepOut (h : g.Valid) : b ∈ g.gepOut a ↔ g.hasEdge .gep a b = true :=
  (h.table .gep).mem_get

theorem Valid.mem_loadOut (h : g.Valid) : b ∈ g.loadOut a ↔ g.hasEdge .load a b = true :=
  (h.table .load).mem_get

theorem Valid.mem_storeIn (h : g.Valid) : b ∈ g.storeIn a ↔ g.hasEdge .store b a = true :=
  (h.table .store).mem_get

theorem Valid.mem_addressEdges (h : g.Valid) :
    (a, b) ∈ g.addressEdges ↔ g.hasEdge .addr a b = true :=
  (h.table .addr).mem_toList

/-! ## Adding a copy -/

/-- **What adding a copy does**: nothing when a node is missing, the copy says nothing or is held,
and otherwise it adds the edge. -/
theorem addCopy_cases (g : ConstraintGraph) (src dst : NodeId) :
    (g.addCopy src dst = (g, false) ∧
      (g.hasNode src = true → g.hasNode dst = true →
        src = dst ∨ g.hasEdge .copy src dst = true)) ∨
    (g.addCopy src dst = ({ g with copies := g.copies.add src dst }, true) ∧
      g.hasNode src = true ∧ g.hasNode dst = true ∧ src ≠ dst) := by
  unfold addCopy
  cases hm : g.missing? [src, dst] with
  | some n =>
    refine .inl ⟨rfl, fun hsrc hdst => ?_⟩
    have hnone : g.missing? [src, dst] = none := missing?_eq_none.mpr (by simp [hsrc, hdst])
    rw [hm] at hnone
    cases hnone
  | none =>
    have hnodes := missing?_eq_none.mp hm
    by_cases hidle : isIdle .copy src dst = true
    · refine .inl ⟨by simp [addEdge, hidle], fun _ _ => .inl (by simpa [isIdle] using hidle)⟩
    · by_cases hheld : g.hasEdge .copy src dst = true
      · exact .inl ⟨by simp [addEdge, hheld], fun _ _ => .inr hheld⟩
      · refine .inr ⟨?_, hnodes src (by simp), hnodes dst (by simp), by simpa [isIdle] using hidle⟩
        simp only [addEdge, hidle, hheld, Bool.or_self, Bool.false_eq_true, if_false]
        rfl

/-! ## Graphs that can be made -/

/-- **The graphs that can be made**: from a list of nodes, by adding nodes and constraints, up to
the first constraint refused. -/
inductive Built : ConstraintGraph → Prop
  | ofKinds (kinds : List NodeKind) : Built (ofKinds kinds)
  | addNode {g : ConstraintGraph} (kind : NodeKind) : Built g → Built (g.addNode kind).1
  | insert {g g' : ConstraintGraph} {c : Constraint} {added : Bool} :
      Built g → g.insert c = .ok (g', added) → Built g'
  | insertAll {g : ConstraintGraph} (cs : List Constraint) : Built g → Built (g.insertAll cs).1
  | addCopy {g : ConstraintGraph} (src dst : NodeId) : Built g → Built (g.addCopy src dst).1

/-- An accepted constraint joins nodes of the graph and becomes an edge. -/
theorem insert_eq_ok {c : Constraint} {added : Bool} (h : g.insert c = .ok (g', added)) :
    g.hasNode c.src = true ∧ g.hasNode c.dst = true ∧ g' = (g.addEdge c.kind c.src c.dst).1 := by
  unfold insert at h
  cases hm : g.missing? [c.src, c.dst] with
  | some n => rw [hm] at h; cases h
  | none =>
    rw [hm] at h
    have hnodes := missing?_eq_none.mp hm
    injection h with h
    exact ⟨hnodes _ (by simp), hnodes _ (by simp), by rw [h]⟩

/-- What every edge added between nodes of the graph keeps, adding constraints keeps, up to the
first one refused. -/
theorem insertAll_keeps {P : ConstraintGraph → Prop}
    (hedge : ∀ {g kind src dst}, P g → g.hasNode src = true → g.hasNode dst = true →
      P (g.addEdge kind src dst).1) (h : P g) (cs : List Constraint) : P (g.insertAll cs).1 := by
  induction cs generalizing g with
  | nil => exact h
  | cons c cs ih =>
    rw [insertAll]
    split
    · exact h
    · rename_i hc
      obtain ⟨hsrc, hdst, rfl⟩ := insert_eq_ok hc
      exact ih (hedge h hsrc hdst)

/-- **What every node and every edge added keeps holds of every graph that can be made.** -/
theorem Built.keeps {P : ConstraintGraph → Prop}
    (hkinds : ∀ kinds, P (ConstraintGraph.ofKinds kinds))
    (hnode : ∀ {g}, P g → ∀ kind, P (g.addNode kind).1)
    (hedge : ∀ {g kind src dst}, P g → g.hasNode src = true → g.hasNode dst = true →
      P (g.addEdge kind src dst).1) (h : g.Built) : P g := by
  induction h with
  | ofKinds kinds => exact hkinds kinds
  | addNode kind _ ih => exact hnode ih kind
  | insert _ hc ih =>
    obtain ⟨hsrc, hdst, rfl⟩ := insert_eq_ok hc
    exact hedge ih hsrc hdst
  | insertAll cs _ ih => exact insertAll_keeps hedge ih cs
  | addCopy src dst _ ih =>
    unfold ConstraintGraph.addCopy
    split
    · exact ih
    · rename_i hm
      have hnodes := missing?_eq_none.mp hm
      exact hedge ih (hnodes _ (by simp)) (hnodes _ (by simp))

/-- **Every graph that can be made is valid.** -/
theorem Built.valid (h : g.Built) : g.Valid := h.keeps valid_ofKinds Valid.addNode Valid.addEdge

/-! ## Graphs from lists -/

theorem kinds_insertAll (g : ConstraintGraph) (cs : List Constraint) :
    (g.insertAll cs).1.kinds = g.kinds :=
  insertAll_keeps (P := fun g' => g'.kinds = g.kinds)
    (fun h _ _ => (kinds_addEdge ..).trans h) rfl cs

theorem nodeCount_insertAll (g : ConstraintGraph) (cs : List Constraint) :
    (g.insertAll cs).1.nodeCount = g.nodeCount :=
  congrArg Array.size (kinds_insertAll g cs)

/-- The edges after a whole list of constraints was added. -/
theorem hasEdge_insertAll {cs : List Constraint} {count : Nat}
    (h : g.insertAll cs = (g', .ok count)) :
    g'.hasEdge kind a b = true ↔ g.hasEdge kind a b = true ∨
      isIdle kind a b = false ∧ ∃ c ∈ cs, c.kind = kind ∧ c.src = a ∧ c.dst = b := by
  induction cs generalizing g count with
  | nil =>
    rw [insertAll] at h
    injection h with hg
    subst hg
    simp
  | cons c cs ih =>
    rw [insertAll] at h
    split at h
    · cases h
    · rename_i g₁ added hc
      obtain ⟨-, -, rfl⟩ := insert_eq_ok hc
      cases hrest : (g.addEdge c.kind c.src c.dst).1.insertAll cs with
      | mk g₂ outcome =>
        rw [hrest] at h
        cases outcome with
        | error e => cases h
        | ok n =>
          injection h with hg
          subst hg
          rw [ih hrest, hasEdge_addEdge]
          constructor
          · rintro ((⟨rfl, rfl, rfl, hidle⟩ | hg) | ⟨hidle, d, hd, hdc⟩)
            · exact .inr ⟨hidle, c, List.mem_cons_self, rfl, rfl, rfl⟩
            · exact .inl hg
            · exact .inr ⟨hidle, d, List.mem_cons_of_mem c hd, hdc⟩
          · rintro (hg | ⟨hidle, d, hd, rfl, rfl, rfl⟩)
            · exact .inl (.inr hg)
            · rcases List.mem_cons.mp hd with rfl | hd
              · exact .inl (.inl ⟨rfl, rfl, rfl, hidle⟩)
              · exact .inr ⟨hidle, d, hd, rfl, rfl, rfl⟩

theorem insertAll_of_ofConstraints {kinds : List NodeKind} {cs : List Constraint}
    (h : ofConstraints kinds cs = .ok g) :
    ∃ count, (ConstraintGraph.ofKinds kinds).insertAll cs = (g, .ok count) := by
  unfold ofConstraints at h
  cases hall : (ConstraintGraph.ofKinds kinds).insertAll cs with
  | mk g' outcome =>
    rw [hall] at h
    cases outcome with
    | error e => cases h
    | ok count =>
      injection h with h
      exact ⟨count, congrArg (·, Except.ok count) h⟩

theorem built_ofConstraints {kinds : List NodeKind} {cs : List Constraint}
    (h : ofConstraints kinds cs = .ok g) : g.Built := by
  obtain ⟨count, hall⟩ := insertAll_of_ofConstraints h
  have hbuilt := Built.insertAll cs (Built.ofKinds kinds)
  rwa [hall] at hbuilt

/-- **The edges of a graph made from a list** are the constraints of the list, those left out that
say nothing. -/
theorem hasEdge_ofConstraints {kinds : List NodeKind} {cs : List Constraint}
    (h : ofConstraints kinds cs = .ok g) :
    g.hasEdge kind a b = true ↔
      isIdle kind a b = false ∧ ∃ c ∈ cs, c.kind = kind ∧ c.src = a ∧ c.dst = b := by
  obtain ⟨count, hall⟩ := insertAll_of_ofConstraints h
  rw [hasEdge_insertAll hall]
  have hnone : ¬ (ConstraintGraph.ofKinds kinds).hasEdge kind a b = true := by
    cases kind <;> simp [hasEdge, table, ConstraintGraph.ofKinds, EdgeTable.contains]
  simp [hnone]

theorem nodeCount_ofConstraints {kinds : List NodeKind} {cs : List Constraint}
    (h : ofConstraints kinds cs = .ok g) : g.nodeCount = kinds.length := by
  obtain ⟨count, hall⟩ := insertAll_of_ofConstraints h
  have hcount := nodeCount_insertAll (ConstraintGraph.ofKinds kinds) cs
  rw [hall] at hcount
  rw [hcount]
  simp [ConstraintGraph.ofKinds, nodeCount]

end ConstraintGraph

end PointsTo
