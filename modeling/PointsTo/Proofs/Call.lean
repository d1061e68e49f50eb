import PointsTo.Call.Function
import PointsTo.Call.Graph
import PointsTo.Proofs.IdSet
import Std.Data.DTreeMap.Internal.WF.Lemmas

/-!
# Function tables and call graphs

Every table made by inserting functions lists each function under its own name. A call graph is
valid when the callees of every site ascend, so that asking for an edge is membership.

## Main definitions

* `FunctionTable.Valid`: functions stand under their own names
* `CallGraph.Valid`: callees ascend

## Main results

* `FunctionTable.valid_ofList`: every table made by inserting functions is valid
* `CallGraph.hasEdge_insert`: the edges after a callee was connected
* `CallGraph.hasEdge_recordRound`: a round moves states and no edge
-/

namespace PointsTo

/-- The values of a table are those of its entries. -/
theorem values_eq_map_snd {β : Type} (t : Std.ExtTreeMap Nat β) :
    t.values = t.toList.map Prod.snd := by
  obtain ⟨t⟩ := t
  induction t using Std.ExtDTreeMap.inductionOn with
  | mk m =>
    change m.inner.values = (Std.DTreeMap.Internal.Impl.Const.toList m.inner).map Prod.snd
    rw [Std.DTreeMap.Internal.Impl.values_eq_map_snd,
      Std.DTreeMap.Internal.Impl.Const.toList_eq_toListModel_map, List.map_map]
    rfl

theorem mem_values_of_getElem? {β : Type} {t : Std.ExtTreeMap Nat β} {k : Nat} {v : β}
    (h : t[k]? = some v) : v ∈ t.values := by
  rw [values_eq_map_snd]
  exact List.mem_map.mpr ⟨(k, v), Std.ExtTreeMap.mem_toList_iff_getElem?_eq_some.mpr h, rfl⟩

namespace FunctionTable

variable {t : FunctionTable} {f : FunctionId} {d : FunctionDecl}

/-- Every function stands under its own name. -/
def Valid (t : FunctionTable) : Prop := ∀ f d, t.get? f = some d → d.id = f

theorem Valid.insert (h : t.Valid) (d : FunctionDecl) : (t.insert d).Valid := by
  intro f e he
  rw [get?, FunctionTable.insert, Std.ExtTreeMap.getElem?_insert] at he
  split at he
  · rename_i hcmp
    injection he with he
    rw [← he]
    exact Std.LawfulEqCmp.compare_eq_iff_eq.mp hcmp
  · exact h f e he

/-- **Every table made by inserting functions is valid.** -/
theorem valid_ofList (ds : List FunctionDecl) : (ofList ds).Valid := by
  suffices ∀ t : FunctionTable, t.Valid → (ds.foldl FunctionTable.insert t).Valid from
    this empty fun f d he => by simp [get?, empty] at he
  induction ds with
  | nil => exact fun _ h => h
  | cons d ds ih => exact fun t h => ih _ (h.insert d)

/-- The function that an object stands for is the one of its name. -/
theorem Valid.get?_of_forObject? (h : t.Valid) {o : NodeId} (ho : t.forObject? o = some d) :
    t.get? d.id = some d := by
  obtain ⟨f, -, hf⟩ := Option.bind_eq_some_iff.mp ho
  rw [h f d hf]
  exact hf

end FunctionTable

namespace CallGraph

variable {g : CallGraph} {site s : SiteId} {callee f : FunctionId}

/-- The callees of every site ascend. -/
def Valid (g : CallGraph) : Prop := ∀ site, (g.calleesOf site).Ascending

theorem calleesOf_empty (site : SiteId) : (∅ : CallGraph).calleesOf site = ∅ :=
  Std.ExtTreeMap.getD_empty

theorem valid_empty : (∅ : CallGraph).Valid := by
  intro site
  rw [calleesOf_empty]
  exact IdSet.ascending_empty

theorem Valid.hasEdge_iff (h : g.Valid) :
    g.hasEdge site callee = true ↔ callee ∈ g.calleesOf site :=
  IdSet.contains_iff_mem (h site)

/-! ## Connecting a callee -/

theorem insert_snd (g : CallGraph) (site : SiteId) (callee : FunctionId) :
    (g.insert site callee).2 = !g.hasEdge site callee := by
  unfold insert
  split <;> simp_all

theorem calleesOf_insert (g : CallGraph) (site : SiteId) (callee : FunctionId) (s : SiteId) :
    (g.insert site callee).1.calleesOf s =
      if s = site ∧ ¬ g.hasEdge site callee = true then (g.calleesOf site).insert callee
      else g.calleesOf s := by
  unfold insert
  by_cases h : g.hasEdge site callee = true
  · simp [h]
  · by_cases hs : s = site
    · simp [h, hs, calleesOf]
    · simp [h, hs, calleesOf, Std.ExtTreeMap.getD_insert, Ne.symm hs]

theorem Valid.insert (h : g.Valid) (site : SiteId) (callee : FunctionId) :
    (g.insert site callee).1.Valid := by
  intro s
  rw [calleesOf_insert]
  split
  · exact IdSet.ascending_insert (h site) callee
  · exact h s

/-- The edges after a callee was connected. -/
theorem Valid.hasEdge_insert (h : g.Valid) :
    (g.insert site callee).1.hasEdge s f = true ↔
      (s = site ∧ f = callee) ∨ g.hasEdge s f = true := by
  rw [(h.insert site callee).hasEdge_iff, h.hasEdge_iff, calleesOf_insert]
  by_cases hs : s = site
  · subst hs
    by_cases hc : g.hasEdge s callee = true
    · rw [if_neg fun hn => hn.2 hc]
      constructor
      · exact Or.inr
      · rintro (⟨-, rfl⟩ | hf)
        · exact h.hasEdge_iff.mp hc
        · exact hf
    · simp [hc]
  · simp [hs]

/-! ## Closing a round -/

@[simp] theorem callees_recordRound (g : CallGraph) (connected : IdSet) (sites : List SiteId) :
    (g.recordRound connected sites).1.callees = g.callees := by
  induction sites generalizing g with
  | nil => rfl
  | cons site sites ih =>
    rw [recordRound]
    exact ih _

theorem calleesOf_recordRound (g : CallGraph) (connected : IdSet) (sites : List SiteId)
    (site : SiteId) :
    (g.recordRound connected sites).1.calleesOf site = g.calleesOf site := by
  rw [calleesOf, callees_recordRound, calleesOf]

theorem hasEdge_recordRound (g : CallGraph) (connected : IdSet) (sites : List SiteId)
    (site : SiteId) (callee : FunctionId) :
    (g.recordRound connected sites).1.hasEdge site callee = g.hasEdge site callee := by
  rw [hasEdge, calleesOf_recordRound, hasEdge]

theorem nextState_recordRound (g : CallGraph) (connected : IdSet) (sites : List SiteId)
    (site : SiteId) :
    (g.recordRound connected sites).1.nextState connected site = g.nextState connected site := by
  rw [nextState, calleesOf_recordRound, nextState]

theorem edgeCount_recordRound (g : CallGraph) (connected : IdSet) (sites : List SiteId) :
    (g.recordRound connected sites).1.edgeCount = g.edgeCount := by
  induction sites generalizing g with
  | nil => rfl
  | cons site sites ih =>
    rw [recordRound]
    exact ih _

/-- The state of a site after a round is set by its callees, which closing the round leaves
alone. -/
theorem getElem?_states_recordRound (g : CallGraph) (connected : IdSet) (sites : List SiteId)
    (i : SiteId) :
    (g.recordRound connected sites).1.states[i]? =
      if i ∈ sites then some (g.nextState connected i) else g.states[i]? := by
  induction sites generalizing g with
  | nil => rw [if_neg List.not_mem_nil, recordRound]
  | cons site sites ih =>
    have hstates : (g.recordSite connected site).1.states[i]? =
        if site = i then some (g.nextState connected site) else g.states[i]? := by
      simp only [recordSite, Std.ExtTreeMap.getElem?_insert, Nat.compare_eq_eq]
    have hnext : (g.recordSite connected site).1.nextState connected i = g.nextState connected i :=
      rfl
    rw [recordRound]
    dsimp only
    rw [ih, hstates, hnext]
    by_cases hi : i ∈ sites
    · rw [if_pos hi, if_pos (List.mem_cons_of_mem _ hi)]
    · by_cases heq : site = i
      · subst heq
        rw [if_neg hi, if_pos rfl, if_pos List.mem_cons_self]
      · rw [if_neg hi, if_neg heq, if_neg]
        exact fun hmem => (List.mem_cons.mp hmem).elim (fun h => heq h.symm) hi

/-- Closing a round again, with the same sites connected, changes nothing. -/
theorem recordRound_recordRound (g : CallGraph) (connected : IdSet) (sites : List SiteId) :
    ((g.recordRound connected sites).1.recordRound connected sites).1 =
      (g.recordRound connected sites).1 := by
  have hstates : ((g.recordRound connected sites).1.recordRound connected sites).1.states =
      (g.recordRound connected sites).1.states := by
    refine Std.ExtTreeMap.ext_getElem? fun i => ?_
    rw [getElem?_states_recordRound, nextState_recordRound, getElem?_states_recordRound]
    split <;> rfl
  calc ((g.recordRound connected sites).1.recordRound connected sites).1
      = ⟨_, _, _⟩ := rfl
    _ = (g.recordRound connected sites).1 := by
      rw [hstates, callees_recordRound, edgeCount_recordRound]

theorem Valid.recordRound (h : g.Valid) (connected : IdSet) (sites : List SiteId) :
    (g.recordRound connected sites).1.Valid := by
  intro site
  rw [calleesOf_recordRound]
  exact h site

end CallGraph

end PointsTo
