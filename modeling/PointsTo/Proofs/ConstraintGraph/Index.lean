import Mathlib.Data.List.Nodup
import Mathlib.Data.Set.Card
import PointsTo.Proofs.ConstraintGraph

/-!
# The indexes of a constraint graph

An edge is held in three places: in the index of its kind, in the list that counts the edges of the
kind, and at the node from which the analysis looks for it. Duplicates, idle loops and unknown nodes
leave a constraint out at different points, so it is not the code of one operation that makes the
places agree, but what every operation keeps. Here this is said of every graph that operations can
make, together with what each operation answers.

## Main definitions

* `EdgeTable.Simple`, `ConstraintGraph.Simple`: every edge is listed once, and none is idle
* `timesListed`: how often an edge is listed where it is looked for
* `Operation`, `after`, `handed`: what can be done to a graph, the graph after a list of operations,
  and the nodes handed out on the way
* `Indexed`: the places of a graph agree
* `Answers`: what adding constraints answers and leaves
* `Numbered`: nodes are numbered without gaps, and no number is used twice

## Main results

* `Simple.addEdge`, `Built.simple`: adding an edge lists it once, so every graph does
* `Simple.timesListed_eq`, `Simple.edgeCounts_eq`: so look-ups and counts are those of the edges
* `insertAll_append_refused`: a refused constraint leaves what the ones before it made
* `indexed_after`: graphs made by any operations
-/

namespace PointsTo

/-! ## Edge tables -/

namespace EdgeTable

variable {t : EdgeTable} {key other k : NodeId}

/-- Look-up, list and index hold the same edges, and look-up and list hold each edge once. -/
structure Simple (t : EdgeTable) : Prop extends t.Valid where
  /-- The look-up lists no edge twice. -/
  nodup_get : ∀ k, (t.get k).Nodup
  /-- The list lists no edge twice. -/
  nodup_toList : t.toList.Nodup

theorem simple_empty : Simple {} where
  toValid := valid_empty
  nodup_get k := by simp [get]
  nodup_toList := List.nodup_nil

/-- Adding an edge that is not held keeps edges apart. -/
theorem Simple.add (h : t.Simple) (hfresh : ¬ t.contains key other = true) :
    (t.add key other).Simple where
  toValid := h.toValid.add key other
  nodup_get k := by
    rw [get_add]
    split
    · exact List.nodup_append_comm.mp (List.nodup_cons.mpr ⟨mt h.mem_get.mp hfresh, h.nodup_get _⟩)
    · exact h.nodup_get k
  nodup_toList := by
    rw [toList_add]
    exact List.nodup_append_comm.mp
      (List.nodup_cons.mpr ⟨mt h.mem_toList.mp hfresh, h.nodup_toList⟩)

end EdgeTable

/-- The number of edges of a kind. -/
def EdgeCounts.ofKind (counts : EdgeCounts) : ConstraintKind → Nat
  | .addr => counts.addr
  | .copy => counts.copy
  | .load => counts.load
  | .store => counts.store
  | .gep => counts.gep

namespace ConstraintGraph

variable {g g' : ConstraintGraph} {kind : ConstraintKind} {src dst a b : NodeId} {c : Constraint}
  {cs : List Constraint}

/-! ## Every edge once -/

theorem isIdle_iff : isIdle kind src dst = true ↔ src = dst ∧ (kind = .copy ∨ kind = .gep) := by
  cases kind <;> simp [isIdle]

/-- **Every edge is listed once**, and none is idle. -/
structure Simple (g : ConstraintGraph) : Prop where
  /-- The tables of each kind list every edge once. -/
  table : ∀ kind, (g.table kind).Simple
  /-- No edge is idle. -/
  busy : ∀ {kind src dst}, g.hasEdge kind src dst = true → isIdle kind src dst = false

theorem simple_ofKinds (kinds : List NodeKind) : (ofKinds kinds).Simple where
  table kind := by cases kind <;> exact EdgeTable.simple_empty
  busy {kind src dst} h := by
    cases kind <;> simp [hasEdge, ConstraintGraph.table, ofKinds, EdgeTable.contains] at h

theorem Simple.addNode (h : g.Simple) (kind : NodeKind) : (g.addNode kind).1.Simple where
  table k := by
    rw [table_addNode]
    exact h.table k
  busy {k src dst} he := by
    rw [hasEdge, table_addNode] at he
    exact h.busy he

/-- Adding an edge lists it once: it was not held, or it is not added. -/
theorem Simple.addEdge (h : g.Simple) : (g.addEdge kind src dst).1.Simple where
  table k := by
    unfold ConstraintGraph.addEdge
    split
    · exact h.table k
    · rename_i hnew
      rw [Bool.or_eq_true, not_or] at hnew
      rw [table_setTable]
      split
      · exact (h.table kind).add hnew.2
      · exact h.table k
  busy {k a b} he := by
    rcases hasEdge_addEdge.mp he with ⟨rfl, rfl, rfl, hidle⟩ | he
    · exact hidle
    · exact h.busy he

theorem Built.simple (h : g.Built) : g.Simple :=
  h.keeps simple_ofKinds Simple.addNode fun hg _ _ => hg.addEdge

/-! ## Look-ups and counts -/

/-- **How often an edge is listed where it is looked for**: an address in the list of all addresses,
a store at its destination, any other edge at its source. -/
def timesListed (g : ConstraintGraph) (kind : ConstraintKind) (src dst : NodeId) : Nat :=
  match kind with
  | .addr => g.addressEdges.count (src, dst)
  | .copy => (g.copyOut src).count dst
  | .gep => (g.gepOut src).count dst
  | .load => (g.loadOut src).count dst
  | .store => (g.storeIn dst).count src

/-- An entry of a list without repetitions is counted once, any other not at all. -/
theorem count_eq_of_nodup {α : Type*} [BEq α] [LawfulBEq α] {xs : List α} {x : α} {held : Bool}
    (h : xs.Nodup) (hmem : x ∈ xs ↔ held = true) : xs.count x = if held then 1 else 0 := by
  rw [h.count]
  exact if_congr hmem rfl rfl

/-- An edge is listed once when the graph holds it, and otherwise not at all. -/
theorem Simple.timesListed_eq (h : g.Simple) (kind : ConstraintKind) (src dst : NodeId) :
    g.timesListed kind src dst = if g.hasEdge kind src dst then 1 else 0 := by
  have htable := h.table kind
  cases kind with
  | addr => exact count_eq_of_nodup htable.nodup_toList htable.mem_toList
  | copy | gep | load => exact count_eq_of_nodup (htable.nodup_get src) htable.mem_get
  | store => exact count_eq_of_nodup (htable.nodup_get dst) htable.mem_get

/-- The edges of a kind are counted once each. Turned the way the table holds them, the edges of the
graph are the entries of the list. -/
theorem Simple.edgeCounts_eq (h : g.Simple) (kind : ConstraintKind) :
    g.edgeCounts.ofKind kind = {e : NodeId × NodeId | g.hasEdge kind e.1 e.2 = true}.ncard := by
  have htable := h.table kind
  have hsize : g.edgeCounts.ofKind kind = (g.table kind).toList.toFinset.card := by
    rw [List.toFinset_card_of_nodup htable.nodup_toList]
    cases kind <;> rfl
  have hinj : Function.Injective fun e : NodeId × NodeId => oriented kind e.1 e.2 :=
    fun e f hef => Prod.ext_iff.mpr (oriented_inj.mp hef)
  have himage : (fun e : NodeId × NodeId => oriented kind e.1 e.2) ''
      {e | g.hasEdge kind e.1 e.2 = true} = ((g.table kind).toList.toFinset : Set _) := by
    ext e
    rw [Finset.mem_coe, List.mem_toFinset, htable.mem_toList]
    constructor
    · rintro ⟨f, hf, rfl⟩
      exact hf
    · intro he
      refine ⟨oriented kind e.1 e.2, ?_, by cases kind <;> rfl⟩
      cases kind <;> exact he
  rw [hsize, ← Set.ncard_coe_finset, ← himage, Set.ncard_image_of_injective _ hinj]

/-! ## Adding constraints -/

/-- The graph has both ends of the constraint. -/
def Joins (g : ConstraintGraph) (c : Constraint) : Prop :=
  g.hasNode c.src = true ∧ g.hasNode c.dst = true

/-- The end that is reported as missing: the source unless only the destination is missing. -/
def absentEnd (g : ConstraintGraph) (c : Constraint) : NodeId :=
  if g.hasNode c.src then c.dst else c.src

theorem insert_of_joins (h : g.Joins c) : g.insert c = .ok (g.addEdge c.kind c.src c.dst) := by
  have hnone : g.missing? [c.src, c.dst] = none := missing?_eq_none.mpr (by simp [h.1, h.2])
  rw [insert, hnone]

theorem insert_of_not_joins (h : ¬ g.Joins c) :
    g.insert c = .error (.unknownNode (g.absentEnd c)) := by
  have hsome : g.missing? [c.src, c.dst] = some (g.absentEnd c) := by
    by_cases hsrc : g.hasNode c.src = true
    · have hdst : g.hasNode c.dst = false := Bool.eq_false_iff.mpr fun hdst => h ⟨hsrc, hdst⟩
      simp [missing?, absentEnd, hsrc, hdst]
    · simp [missing?, absentEnd, hsrc]
  rw [insert, hsome]

theorem insert_eq_error_iff {e : AnalysisError} :
    g.insert c = .error e ↔ ¬ g.Joins c ∧ e = .unknownNode (g.absentEnd c) := by
  by_cases h : g.Joins c
  · rw [insert_of_joins h]
    simp [h]
  · rw [insert_of_not_joins h]
    simp [h, eq_comm]

/-- An edge is added exactly when it is neither idle nor held. -/
theorem snd_addEdge_iff : (g.addEdge kind src dst).2 = true ↔
    isIdle kind src dst = false ∧ g.hasEdge kind src dst = false := by
  unfold addEdge
  split
  · rename_i h
    rw [Bool.or_eq_true] at h
    rcases h with h | h <;> simp [h]
  · rename_i h
    rw [Bool.or_eq_true, not_or, Bool.not_eq_true, Bool.not_eq_true] at h
    simp [h]

/-- What is not added leaves the graph as it is. -/
theorem addEdge_of_snd (h : (g.addEdge kind src dst).2 = false) :
    (g.addEdge kind src dst).1 = g := by
  unfold addEdge at h ⊢
  split
  · rfl
  · rename_i hnew
    rw [if_neg hnew] at h
    cases h

theorem joins_addEdge : (g.addEdge kind src dst).1.Joins c ↔ g.Joins c := by
  simp only [Joins, hasNode_iff, nodeCount_addEdge]

theorem insertAll_cons_of_joins (h : g.Joins c) (cs : List Constraint) :
    g.insertAll (c :: cs) = (((g.addEdge c.kind c.src c.dst).1.insertAll cs).1,
      ((g.addEdge c.kind c.src c.dst).1.insertAll cs).2.map
        (· + if (g.addEdge c.kind c.src c.dst).2 then 1 else 0)) := by
  rw [insertAll, insert_of_joins h]

theorem insertAll_cons_of_not_joins (h : ¬ g.Joins c) (cs : List Constraint) :
    g.insertAll (c :: cs) = (g, .error (.unknownNode (g.absentEnd c))) := by
  rw [insertAll, insert_of_not_joins h]

/-- Constraints between nodes of the graph are all accepted. -/
theorem insertAll_of_joins (h : ∀ c ∈ cs, g.Joins c) : ∃ count, (g.insertAll cs).2 = .ok count := by
  induction cs generalizing g with
  | nil => exact ⟨0, rfl⟩
  | cons c cs ih =>
    obtain ⟨hc, hcs⟩ := List.forall_mem_cons.mp h
    obtain ⟨count, hcount⟩ := ih fun d hd => joins_addEdge.mpr (hcs d hd)
    rw [insertAll_cons_of_joins hc, hcount]
    exact ⟨_, rfl⟩

/-- **A refused constraint leaves what the ones before it made.** Adding edges adds no nodes, so the
same end is missing. -/
theorem insertAll_append_refused {before after : List Constraint} (h : ∀ d ∈ before, g.Joins d)
    (hc : ¬ g.Joins c) : g.insertAll (before ++ c :: after) =
      ((g.insertAll before).1, .error (.unknownNode (g.absentEnd c))) := by
  induction before generalizing g with
  | nil => exact insertAll_cons_of_not_joins hc after
  | cons d before ih =>
    obtain ⟨hd, hbefore⟩ := List.forall_mem_cons.mp h
    have habsent : (g.addEdge d.kind d.src d.dst).1.absentEnd c = g.absentEnd c := by
      rw [absentEnd, hasNode, nodeCount_addEdge]
      rfl
    have hrest := ih (g := (g.addEdge d.kind d.src d.dst).1)
      (fun e he => joins_addEdge.mpr (hbefore e he)) (mt joins_addEdge.mp hc)
    rw [List.cons_append, insertAll_cons_of_joins hd, insertAll_cons_of_joins hd, hrest, habsent]
    rfl

theorem hasEdge_insertAll_of_joins (h : ∀ c ∈ cs, g.Joins c) :
    (g.insertAll cs).1.hasEdge kind a b = true ↔ g.hasEdge kind a b = true ∨
      isIdle kind a b = false ∧ ∃ c ∈ cs, c.kind = kind ∧ c.src = a ∧ c.dst = b := by
  obtain ⟨count, hcount⟩ := insertAll_of_joins h
  exact hasEdge_insertAll (Prod.ext rfl hcount)

/-! ## Operations -/

/-- Where operations start: from nodes alone, or from nodes and constraints, all accepted. -/
inductive Initial : ConstraintGraph → Prop
  | ofKinds (kinds : List NodeKind) : Initial (ofKinds kinds)
  | ofConstraints {g : ConstraintGraph} {kinds : List NodeKind} {cs : List Constraint} :
      ofConstraints kinds cs = .ok g → Initial g

/-- What can be done to a graph. -/
inductive Operation where
  | addNode (kind : NodeKind)
  | insert (c : Constraint)
  | insertAll (cs : List Constraint)
  | addCopy (src dst : NodeId)
deriving DecidableEq, Repr

namespace Operation

/-- The graph after the operation; a constraint that is refused leaves it as it is. -/
def apply (g : ConstraintGraph) : Operation → ConstraintGraph
  | addNode kind => (g.addNode kind).1
  | insert c =>
    match g.insert c with
    | .ok (g', _) => g'
    | .error _ => g
  | insertAll cs => (g.insertAll cs).1
  | addCopy src dst => (g.addCopy src dst).1

/-- The nodes that the operation hands out, with their kinds. -/
def handed (g : ConstraintGraph) : Operation → List (NodeId × NodeKind)
  | addNode kind => [((g.addNode kind).2, kind)]
  | insert _ | insertAll _ | addCopy _ _ => []

end Operation

/-- The graph after the operations. -/
def after (g : ConstraintGraph) (ops : List Operation) : ConstraintGraph :=
  ops.foldl Operation.apply g

/-- The nodes that the operations hand out, in order, with their kinds. -/
def handed (g : ConstraintGraph) : List Operation → List (NodeId × NodeKind)
  | [] => []
  | op :: ops => op.handed g ++ handed (op.apply g) ops

theorem Initial.built (h : g.Initial) : g.Built := by
  cases h with
  | ofKinds kinds => exact .ofKinds kinds
  | ofConstraints h => exact built_ofConstraints h

theorem Built.apply (h : g.Built) (op : Operation) : (op.apply g).Built := by
  cases op with
  | addNode kind => exact .addNode kind h
  | insert c =>
    cases hc : g.insert c with
    | ok result =>
      simp only [Operation.apply, hc]
      exact .insert h hc
    | error e =>
      simp only [Operation.apply, hc]
      exact h
  | insertAll cs => exact .insertAll cs h
  | addCopy src dst => exact .addCopy src dst h

theorem Built.after (h : g.Built) (ops : List Operation) : (g.after ops).Built := by
  induction ops generalizing g with
  | nil => exact h
  | cons op ops ih => exact ih (h.apply op)

/-- **An operation adds the nodes that it hands out**, numbered from the number of nodes on. -/
theorem handed_apply (g : ConstraintGraph) (op : Operation) :
    (op.handed g).map Prod.fst = List.range' g.nodeCount (op.handed g).length ∧
      (op.apply g).kinds.toList = g.kinds.toList ++ (op.handed g).map Prod.snd := by
  cases op with
  | addNode kind => exact ⟨rfl, Array.toList_push⟩
  | insert c =>
    refine ⟨rfl, ?_⟩
    cases hc : g.insert c with
    | ok result =>
      obtain ⟨-, -, hresult⟩ := insert_eq_ok hc
      simp [Operation.apply, Operation.handed, hc, hresult]
    | error e => simp [Operation.apply, Operation.handed, hc]
  | insertAll cs => exact ⟨rfl, by simp [Operation.apply, Operation.handed, kinds_insertAll]⟩
  | addCopy src dst =>
    refine ⟨rfl, ?_⟩
    rcases addCopy_cases g src dst with ⟨h, -⟩ | ⟨h, -⟩ <;>
      simp [Operation.apply, Operation.handed, h]

/-- **Operations hand out consecutive numbers**, and the nodes before stay as they are. -/
theorem handed_after (g : ConstraintGraph) (ops : List Operation) :
    (g.handed ops).map Prod.fst = List.range' g.nodeCount (g.handed ops).length ∧
      (g.after ops).kinds.toList = g.kinds.toList ++ (g.handed ops).map Prod.snd := by
  induction ops generalizing g with
  | nil => simp [handed, after]
  | cons op ops ih =>
    obtain ⟨hnumbers, hkinds⟩ := handed_apply g op
    obtain ⟨hrest, hafter⟩ := ih (op.apply g)
    have hcount : (op.apply g).nodeCount = g.nodeCount + (op.handed g).length := by
      have hlength := congrArg List.length hkinds
      simpa [nodeCount] using hlength
    refine ⟨?_, ?_⟩
    · rw [handed, List.map_append, hnumbers, hrest, hcount, List.length_append,
        ← List.range'_append_1]
    · rw [handed, List.map_append, ← List.append_assoc, ← hkinds, ← hafter]
      rfl

/-! ## Graphs made by operations -/

/-- **The places of a graph agree.** -/
structure Indexed (g : ConstraintGraph) : Prop where
  /-- An edge is held exactly when it is listed where it is looked for, and then once. -/
  listed : ∀ kind src dst, g.timesListed kind src dst = if g.hasEdge kind src dst then 1 else 0
  /-- The counts are the numbers of edges. -/
  counted : ∀ kind,
    g.edgeCounts.ofKind kind = {e : NodeId × NodeId | g.hasEdge kind e.1 e.2 = true}.ncard
  /-- Both ends of an edge are nodes. -/
  ends : ∀ {kind src dst}, g.hasEdge kind src dst = true →
    g.hasNode src = true ∧ g.hasNode dst = true
  /-- No copy and no field address leads from a node to itself. -/
  loopless : ∀ n, g.hasEdge .copy n n = false ∧ g.hasEdge .gep n n = false
  /-- The nodes are the numbers below the number of nodes. -/
  nodes : g.nodeIds = List.range g.nodeCount ∧ ∀ n, g.hasNode n = true ↔ n < g.nodeCount

/-- **What adding constraints answers and leaves.** -/
structure Answers (g : ConstraintGraph) : Prop where
  /-- A constraint is refused exactly when the graph lacks one of its ends, which is named. -/
  refused : ∀ {c e}, g.insert c = .error e ↔ ¬ g.Joins c ∧ e = .unknownNode (g.absentEnd c)
  /-- The answer to an accepted one is whether its edge is new. -/
  added : ∀ {c g' added}, g.insert c = .ok (g', added) →
    (added = true ↔ g.hasEdge c.kind c.src c.dst = false ∧ g'.hasEdge c.kind c.src c.dst = true)
  /-- Afterwards the graph holds its edge unless it is an idle loop, and the edges from before. -/
  edges : ∀ {c g' added}, g.insert c = .ok (g', added) → ∀ {kind a b},
    g'.hasEdge kind a b = true ↔ g.hasEdge kind a b = true ∨
      (kind = c.kind ∧ a = c.src ∧ b = c.dst) ∧ ¬ (a = b ∧ (kind = .copy ∨ kind = .gep))
  /-- When the edge is not new, the graph stays as it is. -/
  kept : ∀ {c g'}, g.insert c = .ok (g', false) → g' = g
  /-- Constraints between nodes of the graph are accepted together, -/
  accepted : ∀ {cs}, (∀ c ∈ cs, g.Joins c) → ∃ count, (g.insertAll cs).2 = .ok count
  /-- and become its edges, idle loops left out. -/
  edgesAll : ∀ {cs}, (∀ c ∈ cs, g.Joins c) → ∀ {kind a b},
    (g.insertAll cs).1.hasEdge kind a b = true ↔ g.hasEdge kind a b = true ∨
      (∃ c ∈ cs, c.kind = kind ∧ c.src = a ∧ c.dst = b) ∧ ¬ (a = b ∧ (kind = .copy ∨ kind = .gep))
  /-- The first one refused leaves what the ones before it made. -/
  refusedAll : ∀ {before c after}, (∀ d ∈ before, g.Joins d) → ¬ g.Joins c →
    g.insertAll (before ++ c :: after) =
      ((g.insertAll before).1, .error (.unknownNode (g.absentEnd c)))

/-- **Nodes are numbered without gaps, and no number is used twice**: operations hand out numbers
from the number of nodes on, and every node keeps its kind. -/
structure Numbered (g : ConstraintGraph) (ops : List Operation) : Prop where
  /-- The numbers handed out follow each other, the first one being new. -/
  handed : (g.handed ops).map Prod.fst = List.range' g.nodeCount (g.handed ops).length
  /-- Each is a node more. -/
  nodeCount : (g.after ops).nodeCount = g.nodeCount + (g.handed ops).length
  /-- A node handed out has its kind. -/
  kind : ∀ {n kind}, (n, kind) ∈ g.handed ops → (g.after ops).kind? n = some kind
  /-- A node from before keeps its kind. -/
  kept : ∀ {n kind}, g.kind? n = some kind → (g.after ops).kind? n = some kind

theorem Simple.indexed (h : g.Simple) (hv : g.Valid) : g.Indexed where
  listed := h.timesListed_eq
  counted := h.edgeCounts_eq
  ends := hv.ends
  loopless n := by
    constructor <;>
      exact Bool.eq_false_iff.mpr fun he => Bool.false_ne_true
        ((h.busy he).symm.trans (isIdle_iff.mpr ⟨rfl, by simp⟩))
  nodes := ⟨rfl, fun _ => hasNode_iff⟩

theorem answers (g : ConstraintGraph) : g.Answers where
  refused := insert_eq_error_iff
  added {c g' added} hc := by
    obtain ⟨hsrc, hdst, -⟩ := insert_eq_ok hc
    rw [insert_of_joins ⟨hsrc, hdst⟩, Except.ok.injEq] at hc
    obtain rfl : (g.addEdge c.kind c.src c.dst).1 = g' := congrArg Prod.fst hc
    obtain rfl : (g.addEdge c.kind c.src c.dst).2 = added := congrArg Prod.snd hc
    rw [snd_addEdge_iff, hasEdge_addEdge, and_comm]
    refine and_congr_right fun hnew => ?_
    simp [hnew]
  edges {c g' added} hc {kind a b} := by
    obtain ⟨-, -, rfl⟩ := insert_eq_ok hc
    rw [hasEdge_addEdge, ← isIdle_iff, Bool.not_eq_true, or_comm]
    refine or_congr_right ⟨?_, ?_⟩
    · rintro ⟨rfl, rfl, rfl, hidle⟩
      exact ⟨⟨rfl, rfl, rfl⟩, hidle⟩
    · rintro ⟨⟨rfl, rfl, rfl⟩, hidle⟩
      exact ⟨rfl, rfl, rfl, hidle⟩
  kept {c g'} hc := by
    obtain ⟨hsrc, hdst, rfl⟩ := insert_eq_ok hc
    rw [insert_of_joins ⟨hsrc, hdst⟩, Except.ok.injEq] at hc
    exact addEdge_of_snd (congrArg Prod.snd hc)
  accepted := insertAll_of_joins
  edgesAll {cs} hcs {kind a b} := by
    rw [hasEdge_insertAll_of_joins hcs, ← isIdle_iff, Bool.not_eq_true, and_comm]
  refusedAll := insertAll_append_refused

/-- **Whatever is done to a graph, its nodes are numbered in order**, so the place of a node among
those handed out gives its number. -/
theorem numbered_after (g : ConstraintGraph) (ops : List Operation) : Numbered g ops := by
  obtain ⟨hhanded, hkinds⟩ := handed_after g ops
  have hkind : ∀ n, (g.after ops).kind? n =
      (g.kinds.toList ++ (g.handed ops).map Prod.snd)[n]? := by
    intro n
    rw [← hkinds, kind?, Array.getElem?_toList]
  refine ⟨hhanded, ?_, ?_, ?_⟩
  · have hlength := congrArg List.length hkinds
    simpa [ConstraintGraph.nodeCount] using hlength
  · intro n kind hn
    obtain ⟨i, hi, hget⟩ := List.getElem_of_mem hn
    have hnumber : n = g.nodeCount + i := by
      have hfst := congrArg (·[i]?) hhanded
      simpa [hi, hget] using hfst
    rw [hkind, hnumber, List.getElem?_append_right (by simp [ConstraintGraph.nodeCount])]
    simp [ConstraintGraph.nodeCount, hi, hget]
  · intro n kind hn
    rw [kind?, ← Array.getElem?_toList] at hn
    rw [hkind, List.getElem?_append_left (List.getElem?_eq_some_iff.mp hn).1, hn]

/-- **The indexes of every graph agree.** Whatever operations made a graph, refused ones included,
each edge is listed once where it is looked for and counted once, joins two nodes and is no idle
loop; the next constraint is refused exactly when one of its ends is missing and is new exactly when
its edge is; constraints added together leave the edges of those before the first one refused; and
nodes are numbered without gaps, no number being used twice. -/
theorem indexed_after (h : g.Initial) (ops : List Operation) :
    (g.after ops).Indexed ∧ (g.after ops).Answers ∧ Numbered g ops := by
  have hbuilt : (g.after ops).Built := h.built.after ops
  exact ⟨hbuilt.simple.indexed hbuilt.valid, answers _, numbered_after g ops⟩

/-- Constraints that repeat, name an unknown node or are idle, between additions of nodes. -/
def mixedOperations : List Operation :=
  [.insertAll [.addr 0 2, .copy 1 0, .copy 1 0], .addNode .value,
    .insertAll [.store 0 3, .copy 9 0, .load 1 0], .addCopy 1 1, .insert (.load 7 0),
    .addNode .object]

/-- The store before the unknown node 9 is listed at its pointer, the load after it is not held, and
the copy that came twice is counted once. -/
theorem indexed_after_mixed :
    (ofKinds [.value, .value, .object]).Initial ∧
      ((ofKinds [.value, .value, .object]).after mixedOperations).timesListed .store 3 0 = 1 ∧
      ((ofKinds [.value, .value, .object]).after mixedOperations).timesListed .load 0 1 = 0 ∧
      {e : NodeId × NodeId | ((ofKinds [.value, .value, .object]).after mixedOperations).hasEdge
        .copy e.1 e.2 = true}.ncard = 1 ∧
      ((ofKinds [.value, .value, .object]).handed mixedOperations).map Prod.fst = [3, 4] := by
  have hinitial : (ofKinds [.value, .value, .object]).Initial := .ofKinds _
  obtain ⟨hindexed, -, hnumbered⟩ := indexed_after hinitial mixedOperations
  refine ⟨hinitial, ?_, ?_, ?_, ?_⟩
  · rw [hindexed.listed]
    decide +kernel
  · rw [hindexed.listed]
    decide +kernel
  · rw [← hindexed.counted]
    decide +kernel
  · rw [hnumbered.handed]
    decide +kernel

end ConstraintGraph

end PointsTo
