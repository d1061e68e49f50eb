import PointsTo.Proofs.ConstraintGraph
import PointsTo.Proofs.Solver.Merge
import PointsTo.Proofs.Worklist

/-!
# Valid solver states

The constraints of a node join its class when the node is first needed, and move with the class from
then on. A state is valid when nothing is lost or made up on the way: what waits at a representative
comes from loaded nodes of its class, and every constraint of a loaded node waits at the
representative of the node, unless it was applied for good.

The four lists of a class behave alike, so that each statement is made once, for any list that is
read off the constraints of a class.

## Main definitions

* `ClassEdges.Part`: a list read off the constraints of a class
* `Solver.Kept`: the waiting list of each class is that of its loaded nodes, less what is done
* `Solver.Accounts`: all four lists are kept, less the copies held aside by a class being treated
* `Solver.Valid`: classes, worklist, graph and waiting constraints are in order

## Main results

* `Accounts.join`: a merge loses no constraint
* `ValidBut.unify`, `ValidBut.mergeInto`, `ValidBut.loadEdges`, `ValidBut.enqueue`,
  `ValidBut.dequeue?`: the steps of the solver keep a state valid
-/

namespace PointsTo

/-! ## Lists of constraints -/

/-- A list read off the constraints of a class: two classes together have both lists. -/
structure ClassEdges.Part (α : Type) where
  /-- The list. -/
  read : ClassEdges → List α
  read_empty : read {} = []
  read_append : ∀ a b, read (a ++ b) = read a ++ read b

namespace ClassEdges.Part

/-- The copies. -/
def copies : Part (NodeId × NodeId) := ⟨ClassEdges.copies, rfl, copies_append⟩

/-- The field addresses. -/
def geps : Part (NodeId × NodeId) := ⟨ClassEdges.geps, rfl, geps_append⟩

/-- The destinations of loads. -/
def loads : Part NodeId := ⟨ClassEdges.loads, rfl, loads_append⟩

/-- The sources of stores. -/
def stores : Part NodeId := ⟨ClassEdges.stores, rfl, stores_append⟩

variable {α : Type}

theorem mem_read_append (part : Part α) {e : α} {a b : ClassEdges} :
    e ∈ part.read (a ++ b) ↔ e ∈ part.read a ∨ e ∈ part.read b := by
  rw [part.read_append, List.mem_append]

theorem not_mem_read_empty (part : Part α) (e : α) : ¬ e ∈ part.read {} := by
  rw [part.read_empty]
  exact List.not_mem_nil

end ClassEdges.Part

/-- The constraints of each node after a copy was added to the graph. -/
theorem ConstraintGraph.edgesAt_add_copy (g : ConstraintGraph) (src dst n : NodeId) :
    { g with copies := g.copies.add src dst }.edgesAt n =
      if n = src then g.edgesAt n ++ { copies := [(src, dst)] } else g.edgesAt n := by
  have hget := g.copies.get_add src dst n
  by_cases hn : n = src
  · subst hn
    rw [if_pos rfl] at hget ⊢
    change ClassEdges.mk (((g.copies.add n dst).get n).map (n, ·)) _ _ _ = _
    rw [hget, List.map_append]
    change _ = ClassEdges.mk _ (_ ++ []) (_ ++ []) (_ ++ [])
    simp only [List.append_nil]
    rfl
  · rw [if_neg hn] at hget ⊢
    change ClassEdges.mk (((g.copies.add src dst).get n).map (n, ·)) _ _ _ = _
    rw [hget]
    rfl

/-- The copies of a node are its edges of that kind. -/
theorem ConstraintGraph.Valid.mem_copies {g : ConstraintGraph} {n d : NodeId} (h : g.Valid) :
    (n, d) ∈ (g.edgesAt n).copies ↔ g.hasEdge .copy n d = true := by
  rw [← h.mem_copyOut]
  exact List.mem_map_of_injective (Prod.mk_right_injective n)

theorem ConstraintGraph.Valid.mem_geps {g : ConstraintGraph} {n d : NodeId} (h : g.Valid) :
    (n, d) ∈ (g.edgesAt n).geps ↔ g.hasEdge .gep n d = true := by
  rw [← h.mem_gepOut]
  exact List.mem_map_of_injective (Prod.mk_right_injective n)

namespace Solver

variable {s t : Solver} {α : Type} {part : ClassEdges.Part α} {done done' : α → Prop}
  {held : ClassEdges} {lost survivor n m a b x y o : NodeId}

/-! ## Kept lists -/

/-- What waits at each class comes from its loaded nodes, and what its loaded nodes bring waits
there or is done. -/
structure Kept (part : ClassEdges.Part α) (done : α → Prop) (s : Solver) : Prop where
  /-- What waits at a class comes from a loaded node of the class. -/
  source : ∀ {r e}, e ∈ part.read (s.edgesOf r) →
    ∃ n, s.loaded.contains n = true ∧ s.representative n = r ∧ e ∈ part.read (s.graph.edgesAt n)
  /-- What a loaded node brings waits at its class or is done. -/
  kept : ∀ {n e}, s.loaded.contains n = true → e ∈ part.read (s.graph.edgesAt n) →
    e ∈ part.read (s.edgesOf (s.representative n)) ∨ done e

namespace Kept

theorem congr (h : Kept part done s) (hg : t.graph = s.graph) (hc : t.classes = s.classes)
    (he : t.edges = s.edges) (hl : t.loaded = s.loaded) : Kept part done t := by
  refine ⟨fun {r e} hr => ?_, fun {n e} hn hm => ?_⟩
  · have hs := h.source (r := r) (e := e) (by rwa [edgesOf, ← he])
    simpa only [hl, hg, representative_congr hc] using hs
  · have hs := h.kept (n := n) (e := e) (by rwa [← hl]) (by rwa [← hg])
    rwa [edgesOf, he, representative_congr hc]

theorem mono (h : Kept part done s) (hd : ∀ e, done e → done' e) : Kept part done' s :=
  ⟨h.source, fun hn hm => (h.kept hn hm).imp_right (hd _)⟩

/-- A node brings its constraints to its class. -/
theorem loadEdges (h : Kept part done s) (n : NodeId) : Kept part done (s.loadEdges n) := by
  have hgraph : (s.loadEdges n).graph = s.graph := by rw [loadEdges_eq]
  have hrep : ∀ m, (s.loadEdges n).representative m = s.representative m :=
    representative_congr (by rw [loadEdges_eq])
  refine ⟨fun {r e} he => ?_, fun {m e} hm he => ?_⟩
  · simp only [loaded_loadEdges, hgraph, hrep]
    rw [edgesOf_loadEdges] at he
    by_cases hr : r = s.representative n ∧ ¬ s.loaded.contains n = true
    · rw [if_pos hr, part.mem_read_append] at he
      rcases he with he | he
      · obtain ⟨m, hm, hmr, hme⟩ := h.source he
        exact ⟨m, .inr hm, hmr, hme⟩
      · exact ⟨n, .inl rfl, hr.1.symm, he⟩
    · rw [if_neg hr] at he
      obtain ⟨m, hm, hmr, hme⟩ := h.source he
      exact ⟨m, .inr hm, hmr, hme⟩
  · rw [hgraph] at he
    rw [loaded_loadEdges] at hm
    rw [hrep, edgesOf_loadEdges]
    by_cases hloaded : s.loaded.contains m = true
    · refine (h.kept hloaded he).imp_left fun hw => ?_
      split
      · exact part.mem_read_append.mpr (.inl hw)
      · exact hw
    · obtain rfl : m = n := hm.resolve_right hloaded
      rw [if_pos ⟨rfl, hloaded⟩]
      exact .inl (part.mem_read_append.mpr (.inr he))

/-- The absorbed class hands its list to the survivor. -/
theorem relabel (h : Kept part done s) (hv : s.classes.Valid)
    (hlost : s.representative lost = lost) (hsurvivor : s.representative survivor = survivor)
    (hne : lost ≠ survivor) : Kept part done (s.relabel lost survivor) := by
  have hgraph : (s.relabel lost survivor).graph = s.graph := by rw [relabel_eq]
  have hloaded : (s.relabel lost survivor).loaded = s.loaded := by rw [relabel_eq]
  have hrep := representative_relabel hv hlost survivor
  refine ⟨fun {r e} he => ?_, fun {n e} hn he => ?_⟩
  · simp only [hgraph, hloaded, hrep]
    rw [edgesOf_relabel s hne] at he
    by_cases hrs : r = survivor
    · subst hrs
      rw [if_pos rfl, part.mem_read_append] at he
      rcases he with he | he
      · obtain ⟨n, hn, hnr, hne'⟩ := h.source he
        exact ⟨n, hn, by rw [hnr, if_neg hne.symm], hne'⟩
      · obtain ⟨n, hn, hnr, hne'⟩ := h.source he
        exact ⟨n, hn, by rw [hnr, if_pos rfl], hne'⟩
    · rw [if_neg hrs] at he
      by_cases hrl : r = lost
      · rw [if_pos hrl] at he
        exact absurd he (part.not_mem_read_empty e)
      · rw [if_neg hrl] at he
        obtain ⟨n, hn, hnr, hne'⟩ := h.source he
        exact ⟨n, hn, by rw [hnr, if_neg hrl], hne'⟩
  · rw [hgraph] at he
    rw [hloaded] at hn
    refine (h.kept hn he).imp_left fun hw => ?_
    rw [hrep, edgesOf_relabel s hne]
    by_cases hnl : s.representative n = lost
    · rw [if_pos hnl, if_pos rfl]
      exact part.mem_read_append.mpr (.inr (hnl ▸ hw))
    · rw [if_neg hnl]
      by_cases hns : s.representative n = survivor
      · rw [if_pos hns]
        exact part.mem_read_append.mpr (.inl (hns ▸ hw))
      · rw [if_neg hns, if_neg hnl]
        exact hw

/-- **A merge loses no constraint.** -/
theorem join (h : Kept part done s) (hv : s.classes.Valid)
    (hlost : s.representative lost = lost) (hsurvivor : s.representative survivor = survivor)
    (hne : lost ≠ survivor) : Kept part done (s.join lost survivor) :=
  (((h.relabel hv hlost hsurvivor hne).loadEdges lost).loadEdges survivor).congr rfl rfl rfl rfl

end Kept

/-! ## Accounts of all constraints -/

/-- All four lists are kept. A copy or a field address is done when its two ends share a class, and
those of `held` are taken care of elsewhere; loads and stores are never done. A node that shares its
class with another one is loaded. -/
structure Accounts (s : Solver) (held : ClassEdges) : Prop where
  copies : Kept .copies (fun e => s.Same e.1 e.2 ∨ e ∈ held.copies) s
  geps : Kept .geps (fun e => s.Same e.1 e.2 ∨ e ∈ held.geps) s
  loads : Kept .loads (fun _ => False) s
  stores : Kept .stores (fun _ => False) s
  /-- A node that shares its class with another one is loaded. -/
  loaded : ∀ {x y}, s.Same x y → x ≠ y → s.loaded.contains x = true

namespace Accounts

theorem congr (h : s.Accounts held) (hg : t.graph = s.graph) (hc : t.classes = s.classes)
    (he : t.edges = s.edges) (hl : t.loaded = s.loaded) : t.Accounts held := by
  refine ⟨?_, ?_, h.loads.congr hg hc he hl, h.stores.congr hg hc he hl, fun hxy hne => ?_⟩
  · exact (h.copies.congr hg hc he hl).mono fun e => .imp_left (same_congr hc).mpr
  · exact (h.geps.congr hg hc he hl).mono fun e => .imp_left (same_congr hc).mpr
  · rw [hl]
    exact h.loaded ((same_congr hc).mp hxy) hne

/-- **A merge loses no constraint**, and loads both representatives. -/
theorem join (h : s.Accounts held) (hv : s.classes.Valid) (hj : s.Joinable a b lost survivor) :
    (s.join lost survivor).Accounts held := by
  have hlost := hj.lost_eq hv
  have hsurvivor := hj.survivor_eq hv
  have hmono : ∀ {x y}, s.Same x y → (s.join lost survivor).Same x y :=
    fun hxy => hxy.join hv hlost survivor
  refine ⟨?_, ?_, h.loads.join hv hlost hsurvivor hj.ne, h.stores.join hv hlost hsurvivor hj.ne, ?_⟩
  · exact (h.copies.join hv hlost hsurvivor hj.ne).mono fun e => .imp_left hmono
  · exact (h.geps.join hv hlost hsurvivor hj.ne).mono fun e => .imp_left hmono
  · intro x y hxy hne
    rw [loaded_join]
    by_cases hx : x = survivor
    · exact .inl hx
    by_cases hx' : x = lost
    · exact .inr (.inl hx')
    refine .inr (.inr ?_)
    unfold Same at hxy
    rw [representative_join hv hlost, representative_join hv hlost] at hxy
    by_cases hxl : s.representative x = lost
    · exact h.loaded (hxl.trans hlost.symm) hx'
    · rw [if_neg hxl] at hxy
      by_cases hyl : s.representative y = lost
      · rw [if_pos hyl] at hxy
        exact h.loaded (hxy.trans hsurvivor.symm) hx
      · rw [if_neg hyl] at hxy
        exact h.loaded hxy hne

theorem loadEdges (h : s.Accounts held) (n : NodeId) : (s.loadEdges n).Accounts held := by
  have hc : (s.loadEdges n).classes = s.classes := by rw [loadEdges_eq]
  refine ⟨?_, ?_, h.loads.loadEdges n, h.stores.loadEdges n, fun hxy hne => ?_⟩
  · exact (h.copies.loadEdges n).mono fun e => .imp_left (same_congr hc).mpr
  · exact (h.geps.loadEdges n).mono fun e => .imp_left (same_congr hc).mpr
  · exact loaded_loadEdges.mpr (.inr (h.loaded ((same_congr hc).mp hxy) hne))

end Accounts

/-! ## Valid states -/

/-- Classes, worklist, graph and waiting constraints are in order, the copies and field addresses of
`held` apart. -/
structure ValidBut (s : Solver) (held : ClassEdges) : Prop where
  classes : s.classes.Valid
  worklist : s.worklist.Valid
  graph : s.graph.Valid
  edges : s.Accounts held

/-- **Classes, worklist, graph and waiting constraints are in order.** -/
abbrev Valid (s : Solver) : Prop := s.ValidBut {}

namespace ValidBut

/-- What a state reports, counts or stores in its sets has no part in its being valid. -/
theorem congr (h : s.ValidBut held) (hg : t.graph = s.graph) (hc : t.classes = s.classes)
    (he : t.edges = s.edges) (hl : t.loaded = s.loaded) (hw : t.worklist = s.worklist) :
    t.ValidBut held where
  classes := by rw [hc]; exact h.classes
  worklist := by rw [hw]; exact h.worklist
  graph := by rw [hg]; exact h.graph
  edges := h.edges.congr hg hc he hl

theorem count (h : s.ValidBut held) (counters : Counters) : { s with counters }.ValidBut held :=
  h.congr rfl rfl rfl rfl rfl

theorem join (h : s.ValidBut held) (hj : s.Joinable a b lost survivor) :
    (s.join lost survivor).ValidBut held where
  classes := by
    rw [join_eq]
    exact h.classes.absorb (hj.lost_eq h.classes) (hj.survivor_eq h.classes) hj.ne
  worklist := by rw [join_eq]; exact h.worklist
  graph := by rw [join_eq]; exact h.graph
  edges := h.edges.join h.classes hj

theorem enqueue (h : s.ValidBut held) (n : NodeId) : (s.enqueue n).1.ValidBut held where
  classes := h.classes
  worklist := h.worklist.push _
  graph := h.graph
  edges := h.edges.congr rfl rfl rfl rfl

theorem unify (h : s.ValidBut held) (a b : NodeId) : (s.unify a b).1.ValidBut held := by
  rcases s.unify_cases a b with ⟨-, heq⟩ | ⟨lost, survivor, hj, heq⟩
  · rw [heq]
    exact h
  · rw [heq]
    exact (h.join hj).enqueue survivor

theorem mergeInto (h : s.ValidBut held) (n m : NodeId) : (s.mergeInto n m).1.ValidBut held := by
  rcases s.mergeInto_cases n m with ⟨-, heq⟩ | ⟨hj, heq⟩
  · rw [heq]
    exact h
  · rw [heq]
    exact h.join hj

theorem loadEdges (h : s.ValidBut held) (n : NodeId) : (s.loadEdges n).ValidBut held where
  classes := by rw [loadEdges_eq]; exact h.classes
  worklist := by rw [loadEdges_eq]; exact h.worklist
  graph := by rw [loadEdges_eq]; exact h.graph
  edges := h.edges.loadEdges n

theorem subsume (h : s.ValidBut held) (n sub : NodeId) : (s.subsume n sub).ValidBut held where
  classes := h.classes.subsume n sub
  worklist := h.worklist
  graph := h.graph
  edges := ⟨⟨h.edges.copies.source, h.edges.copies.kept⟩, ⟨h.edges.geps.source, h.edges.geps.kept⟩,
    ⟨h.edges.loads.source, h.edges.loads.kept⟩, ⟨h.edges.stores.source, h.edges.stores.kept⟩,
    h.edges.loaded⟩

end ValidBut

/-- A node taken from the worklist is a representative, and was waiting. -/
theorem dequeue?_cases (h : s.dequeue? = some (n, t)) :
    ∃ m w, s.worklist.pop? = some (m, w) ∧ n = s.representative m ∧
      t = { s with worklist := w } := by
  unfold dequeue? at h
  split at h
  · cases h
  · rename_i m w hpop
    injection h with h
    injection h with hn ht
    exact ⟨m, w, hpop, hn.symm, ht.symm⟩

theorem ValidBut.dequeue? (h : s.ValidBut held) (hs : s.dequeue? = some (n, t)) :
    t.ValidBut held := by
  obtain ⟨m, w, hpop, -, rfl⟩ := dequeue?_cases hs
  exact ⟨h.classes, h.worklist.of_pop? hpop, h.graph, h.edges.congr rfl rfl rfl rfl⟩

end Solver

end PointsTo
