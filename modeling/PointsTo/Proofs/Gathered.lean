import PointsTo.Proofs.Closure
import PointsTo.Proofs.Partition.Run

/-!
# The lists of a class, with multiplicity

A valid state loses no constraint: what a loaded node brings waits at its class or is done. That
says nothing on how often a constraint waits. Loads and stores are never done with, so for them more
can be said: the list of a class is the lists of its loaded members, one after the other and in some
order. A member that was loaded twice, or a list that moved and stayed behind as well, would show.

The order is not that of the class, since a list grows in the order in which its nodes were loaded
and merged. What carries the argument is that the class itself is listed without repetition, so that
loading a node adds what it brings once.

## Main definitions

* `ClassEdges.Part.Lasts`: a list that stays when the constraints of a class are applied
* `Solver.brought`: what the loaded members of a class bring
* `Solver.Gathered`: lists are kept at representatives, and each is what its class brings

## Main results

* `Gathered.loadEdges`, `Gathered.relabel`: loading a node and moving a class gather once
* `Gathered.steps`: every step keeps the lists gathered
* `gathered_of_reachable`: no list of a reachable state loses or repeats a constraint
-/

namespace PointsTo

/-! ## Lists that last -/

namespace ClassEdges.Part

variable {α : Type} {part : Part α}

/-- A list that stays when the constraints of a class are applied. -/
def Lasts (part : Part α) : Prop := ∀ e : ClassEdges, part.read e.lasting = part.read e

theorem lasts_loads : loads.Lasts := fun _ => rfl

theorem lasts_stores : stores.Lasts := fun _ => rfl

/-- Copies are applied for good, so a list that lasts does not show them. -/
theorem Lasts.read_append_copies (h : part.Lasts) (e : ClassEdges)
    (copies : List (NodeId × NodeId)) : part.read (e ++ { copies }) = part.read e := by
  have hnone : part.read { copies } = [] := (h { copies }).symm.trans part.read_empty
  rw [part.read_append, hnone, List.append_nil]

end ClassEdges.Part

/-- A class of two nodes or more has a member beside any given node. -/
theorem Partition.Flat.exists_ne_of_classSize {p : Partition} {n : NodeId} (h : p.Flat)
    (hsize : 2 ≤ p.classSize n) (m : NodeId) : ∃ y, p.find y = p.find n ∧ y ≠ m := by
  have hrep := h.find_find n
  have hcard : 1 < (p.classOf (p.find n)).toFinset.card := by
    rw [List.toFinset_card_of_nodup (h.nodup hrep)]
    exact hsize
  obtain ⟨y, hy, hne⟩ := Finset.exists_mem_ne hcard m
  exact ⟨y, (h.mem_classOf hrep).mp (List.mem_toFinset.mp hy), hne⟩

namespace Solver

variable {s t : Solver} {α : Type} {part : ClassEdges.Part α} {L : Licence}
  {R : NodeId → NodeId → Prop} {F : NodeId → NodeId → Prop} {A : SiteId → Prop}
  {u v : Solver × CopySet} {lost survivor n r rep a b : NodeId}

/-- The loaded members of a class, in the order of the class. -/
def loadedMembers (s : Solver) (r : NodeId) : List NodeId :=
  (s.classes.classOf r).filter fun n => s.loaded.contains n

/-- What the loaded members of a class bring. -/
def brought (part : ClassEdges.Part α) (s : Solver) (r : NodeId) : List α :=
  (s.loadedMembers r).flatMap fun n => part.read (s.graph.edgesAt n)

/-- **Lists are kept at representatives, and each is what its class brings**, in some order. -/
structure Gathered (part : ClassEdges.Part α) (s : Solver) : Prop where
  classes : s.classes.Flat
  /-- Lists are kept at representatives alone. -/
  keys : ∀ {r}, r ∈ s.edges → s.representative r = r
  /-- The list of a class is what its loaded members bring. -/
  perm : ∀ {r}, s.representative r = r → (part.read (s.edgesOf r)).Perm (s.brought part r)

namespace Gathered

/-! ## Loading a node -/

/-- The class of a node that is loaded has one loaded member more. -/
theorem perm_loadedMembers (h : Gathered part s) (hn : ¬ s.loaded.contains n = true) :
    ((s.loadEdges n).loadedMembers (s.representative n)).Perm
      (n :: s.loadedMembers (s.representative n)) := by
  have hrep := h.classes.find_find n
  have hnodup := h.classes.nodup hrep
  have hclasses : (s.loadEdges n).classes = s.classes := by rw [loadEdges_eq]
  have hleft : ((s.loadEdges n).loadedMembers (s.representative n)).Nodup := by
    rw [loadedMembers, hclasses]
    exact hnodup.filter _
  have hright : (n :: s.loadedMembers (s.representative n)).Nodup := by
    refine List.nodup_cons.mpr ⟨fun hmem => hn ?_, hnodup.filter _⟩
    exact (List.mem_filter.mp hmem).2
  refine (List.perm_ext_iff_of_nodup hleft hright).mpr fun m => ?_
  rw [loadedMembers, loadedMembers, hclasses, List.mem_cons, List.mem_filter, List.mem_filter,
    loaded_loadEdges]
  constructor
  · rintro ⟨hm, rfl | hloaded⟩
    · exact .inl rfl
    · exact .inr ⟨hm, hloaded⟩
  · rintro (rfl | ⟨hm, hloaded⟩)
    · exact ⟨(h.classes.mem_classOf hrep).mpr rfl, .inl rfl⟩
    · exact ⟨hm, .inr hloaded⟩

/-- All other classes have the loaded members that they had. -/
theorem loadedMembers_of_ne (h : Gathered part s) (hr : s.representative r = r)
    (hne : r ≠ s.representative n) : (s.loadEdges n).loadedMembers r = s.loadedMembers r := by
  have hclasses : (s.loadEdges n).classes = s.classes := by rw [loadEdges_eq]
  rw [loadedMembers, hclasses]
  refine List.filter_congr fun m hm => ?_
  have hmr : s.representative m = r := (h.classes.mem_classOf hr).mp hm
  have hmn : m ≠ n := by
    rintro rfl
    exact hne hmr.symm
  rw [Bool.eq_iff_iff, loaded_loadEdges]
  exact or_iff_right hmn

/-- **Loading a node gathers what it brings, once.** What the node brings goes to the end of the
list, and the node to the front of the members. -/
theorem loadEdges (h : Gathered part s) (n : NodeId) : Gathered part (s.loadEdges n) := by
  by_cases hn : s.loaded.contains n = true
  · have heq : s.loadEdges n = s := if_pos hn
    rwa [heq]
  have hrep : ∀ m, (s.loadEdges n).representative m = s.representative m :=
    representative_congr (by rw [loadEdges_eq])
  have hgraph : (s.loadEdges n).graph = s.graph := by rw [loadEdges_eq]
  refine ⟨by rw [loadEdges_eq]; exact h.classes, fun {r} hr => ?_, fun {r} hr => ?_⟩
  · rw [hrep]
    unfold Solver.loadEdges at hr
    rw [if_neg hn] at hr
    rcases Std.ExtTreeMap.mem_insert.mp hr with heq | hmem
    · rw [← Std.LawfulEqCmp.eq_of_compare heq]
      exact h.classes.find_find n
    · exact h.keys hmem
  · rw [hrep] at hr
    rw [edgesOf_loadEdges, brought, hgraph]
    by_cases hrn : r = s.representative n
    · subst hrn
      rw [if_pos ⟨rfl, hn⟩, part.read_append]
      have hlist : (part.read (s.edgesOf (s.representative n)) ++
          part.read (s.graph.edgesAt n)).Perm
          (part.read (s.graph.edgesAt n) ++ s.brought part (s.representative n)) :=
        List.perm_append_comm.trans ((h.perm hr).append_left _)
      have hmembers := (h.perm_loadedMembers hn).flatMap_right fun m =>
        part.read (s.graph.edgesAt m)
      rw [List.flatMap_cons] at hmembers
      exact hlist.trans hmembers.symm
    · rw [if_neg fun hc => hrn hc.1, h.loadedMembers_of_ne hr hrn]
      exact h.perm hr

/-! ## Merging two classes -/

theorem loadedMembers_relabel (s : Solver) (hrl : r ≠ lost) :
    (s.relabel lost survivor).loadedMembers r =
      if r = survivor then s.loadedMembers survivor ++ s.loadedMembers lost
      else s.loadedMembers r := by
  rw [relabel_eq]
  simp only [loadedMembers, Partition.classOf_absorb, if_neg hrl]
  split
  · exact List.filter_append ..
  · rfl

/-- After a merge a list is kept at the survivor, or where one was; the absorbed class has none. -/
theorem mem_edges_relabel (hne : lost ≠ survivor) (hr : r ∈ (s.relabel lost survivor).edges) :
    r ≠ lost ∧ (r = survivor ∨ r ∈ s.edges) := by
  unfold Solver.relabel moveEdges at hr
  split at hr
  · rename_i hnone
    refine ⟨?_, .inr hr⟩
    rintro rfl
    have hsome := Std.ExtTreeMap.mem_iff_isSome_getElem?.mp hr
    rw [hnone] at hsome
    cases hsome
  · rcases Std.ExtTreeMap.mem_insert.mp hr with heq | hmem
    · obtain rfl := Std.LawfulEqCmp.eq_of_compare heq
      exact ⟨hne.symm, .inl rfl⟩
    · obtain ⟨hneq, hmem⟩ := Std.ExtTreeMap.mem_erase.mp hmem
      refine ⟨?_, .inr hmem⟩
      rintro rfl
      exact hneq Std.ReflCmp.compare_self

/-- **The absorbed class hands over its list and keeps nothing.** -/
theorem relabel (h : Gathered part s) (hlost : s.representative lost = lost)
    (hsurvivor : s.representative survivor = survivor) (hne : lost ≠ survivor) :
    Gathered part (s.relabel lost survivor) := by
  have hgraph : (s.relabel lost survivor).graph = s.graph := by rw [relabel_eq]
  have hrep := representative_relabel h.classes.toValid hlost survivor
  refine ⟨?_, fun {r} hr => ?_, fun {r} hr => ?_⟩
  · rw [relabel_eq]
    exact h.classes.absorb hlost hsurvivor hne
  · obtain ⟨hrl, rfl | hmem⟩ := mem_edges_relabel hne hr
    · rw [hrep, hsurvivor, if_neg hrl]
    · rw [hrep, h.keys hmem, if_neg hrl]
  · have hrl : r ≠ lost := by
      rintro rfl
      rw [hrep, hlost, if_pos rfl] at hr
      exact hne hr.symm
    rw [edgesOf_relabel s hne, brought, hgraph, loadedMembers_relabel s hrl]
    by_cases hrs : r = survivor
    · rw [if_pos hrs, if_pos hrs, part.read_append, List.flatMap_append]
      exact (h.perm hsurvivor).append (h.perm hlost)
    · rw [if_neg hrs, if_neg hrl, if_neg hrs]
      refine h.perm ?_
      rw [hrep] at hr
      split at hr
      · exact absurd hr.symm hrs
      · exact hr

theorem join (h : Gathered part s) (hj : s.Joinable a b lost survivor) :
    Gathered part (s.join lost survivor) := by
  have hv := h.classes.toValid
  have hmoved := h.relabel (hj.lost_eq hv) (hj.survivor_eq hv) hj.ne
  have hloaded := (hmoved.loadEdges lost).loadEdges survivor
  rw [join_eq_relabel]
  exact ⟨hloaded.classes, hloaded.keys, hloaded.perm⟩

theorem unify (h : Gathered part s) (a b : NodeId) : Gathered part (s.unify a b).1 := by
  rcases s.unify_cases a b with ⟨-, heq⟩ | ⟨lost, survivor, hj, heq⟩
  · rw [heq]
    exact h
  · have hjoined := h.join hj
    rw [heq]
    exact ⟨hjoined.classes, hjoined.keys, hjoined.perm⟩

theorem mergeInto (h : Gathered part s) (n m : NodeId) : Gathered part (s.mergeInto n m).1 := by
  rcases s.mergeInto_cases n m with ⟨-, heq⟩ | ⟨hj, heq⟩
  · rw [heq]
    exact h
  · rw [heq]
    exact h.join hj

theorem joins (h : Gathered part s) (hj : Joins R s t) : Gathered part t := by
  induction hj with
  | refl => exact h
  | @tail t counters a b _ _ _ ih =>
    exact unify (s := { t with counters }) ⟨ih.classes, ih.keys, ih.perm⟩ a b

/-! ## Treating a class -/

/-- Taking the copies and field addresses of a class leaves the lists that last. -/
theorem take (h : Gathered part s) (hlasts : part.Lasts) (hrep : s.representative rep = rep) :
    Gathered part { s with edges := s.edges.insert rep (s.edgesOf rep).lasting } := by
  refine ⟨h.classes, fun {r} hr => ?_, fun {r} hr => ?_⟩
  · rcases Std.ExtTreeMap.mem_insert.mp hr with heq | hmem
    · rw [← Std.LawfulEqCmp.eq_of_compare heq]
      exact hrep
    · exact h.keys hmem
  · have hread : part.read (edgesOf
        { s with edges := s.edges.insert rep (s.edgesOf rep).lasting } r) =
        part.read (s.edgesOf r) := by
      by_cases hrr : r = rep
      · subst hrr
        rw [edgesOf, Std.ExtTreeMap.getD_insert_self]
        exact hlasts _
      · simp [edgesOf, Std.ExtTreeMap.getD_insert, Ne.symm hrr]
    rw [hread]
    exact h.perm hr

theorem treat (h : Gathered part s) (hlasts : part.Lasts) (hrep : s.representative rep = rep) :
    Gathered part (s.treat rep).1 := by
  have hloaded := h.loadEdges rep
  rcases s.treat_cases rep with ⟨heq | heq, -⟩ | ⟨-, -, heq⟩ | ⟨-, -, heq⟩
  · rwa [heq]
  · rwa [heq]
  · rwa [heq]
  · have htaken : Gathered part (s.taken rep) := by
      refine hloaded.take hlasts ?_
      rw [loadEdges_eq]
      exact hrep
    rw [heq]
    exact htaken.joins (joins_applyEdges _ _ _)

/-! ## Connecting callees -/

theorem connectCopy (h : Gathered part s) (hlasts : part.Lasts) (added : CopySet) (a b : NodeId) :
    Gathered part (s.connectCopy added a b).1 := by
  rcases s.connectCopy_cases added a b with ⟨heq, -⟩ | ⟨-, -, heq⟩
  · rw [heq]
    exact h
  rw [heq]
  have hsrc : s.representative (s.representative a) = s.representative a := h.classes.find_find a
  generalize s.representative a = src at hsrc ⊢
  generalize s.representative b = dst
  refine ⟨h.classes, fun {r} hr => ?_, fun {r} hr => ?_⟩
  · change r ∈ (if s.loaded.contains src then s.edges.insert src _ else s.edges) at hr
    split at hr
    · rcases Std.ExtTreeMap.mem_insert.mp hr with heq | hmem
      · rw [← Std.LawfulEqCmp.eq_of_compare heq]
        exact hsrc
      · exact h.keys hmem
    · exact h.keys hr
  · have hlist : part.read ((s.withCopy src dst).edgesOf r) = part.read (s.edgesOf r) := by
      rw [edgesOf_withCopy]
      split
      · exact hlasts.read_append_copies _ _
      · rfl
    have hbrings : ∀ n, part.read ((s.withCopy src dst).graph.edgesAt n) =
        part.read (s.graph.edgesAt n) := by
      intro n
      refine (congrArg part.read (s.graph.edgesAt_add_copy src dst n)).trans ?_
      split
      · exact hlasts.read_append_copies _ _
      · rfl
    rw [hlist, brought]
    simp only [hbrings]
    exact h.perm hr

theorem wiring (h : Gathered part u.1) (hlasts : part.Lasts) (hw : Wiring F A u v) :
    Gathered part v.1 := by
  refine hw.keeps (I := fun v => Gathered part v.1) (fun hw ht => ?_) h
  cases hw with
  | report _ => exact ⟨ht.classes, ht.keys, ht.perm⟩
  | copy _ => exact ht.connectCopy hlasts _ _ _
  | memory _ _ _ _ => exact ht.connectCopy hlasts _ _ _
  | allocate _ _ _ => exact ⟨ht.classes, ht.keys, ht.perm⟩

/-! ## Steps -/

theorem hand (h : Gathered part s) (op : Hand) : Gathered part (op.apply s) := by
  cases op with
  | mergeInto n m => exact h.mergeInto n m
  | unify a b => exact h.unify a b
  | subsume n sub => exact ⟨h.classes.subsume n sub, h.keys, h.perm⟩
  | dequeue =>
    obtain ⟨w, heq⟩ := Hand.apply_dequeue s
    rw [heq]
    exact ⟨h.classes, h.keys, h.perm⟩
  | addObject _ _ | addObjects _ _ | addObjectsOf _ _ | enqueue _ =>
    exact ⟨h.classes, h.keys, h.perm⟩

theorem step (h : Gathered part s) (hlasts : part.Lasts) (hstep : Step L s t) :
    Gathered part t := by
  cases hstep with
  | hand op _ => exact h.hand op
  | pop hd =>
    obtain ⟨_, _, -, -, rfl⟩ := dequeue?_cases hd
    exact ⟨h.classes, h.keys, h.perm⟩
  | treat hrep => exact h.treat hlasts hrep
  | wiring hw _ _ => exact wiring (u := (s, _)) h hlasts hw
  | note _ | address _ _ _ | seeded _ | wait _ | callee _ _ _ | record _ =>
    exact ⟨h.classes, h.keys, h.perm⟩

/-- **Every step keeps the lists gathered.** -/
theorem steps (h : Gathered part s) (hs : s.Coherent) (hlasts : part.Lasts)
    (hsteps : Steps L s t) : Gathered part t :=
  hsteps.keeps hs (fun _ hstep hg => step hg hlasts hstep) h

end Gathered

end Solver

open Solver

variable {p : Problem} {s : Solver} {scope : Scope} {α : Type} {part : ClassEdges.Part α}

/-- Before the analysis no list is kept and no node is loaded. -/
theorem gathered_ofProblem (part : ClassEdges.Part α) (h : ofProblem p = .ok s) :
    Gathered part s := by
  obtain ⟨-, -, rfl⟩ := ofProblem_eq_ok h
  refine ⟨Partition.flat_empty, fun hr => absurd hr Std.ExtTreeMap.not_mem_empty, fun _ => ?_⟩
  rw [edgesOf, Std.ExtTreeMap.getD_empty, part.read_empty, brought, loadedMembers]
  simp

theorem Reachable.gathered (hp : p.Made) (hlasts : part.Lasts) (h : Reachable scope p s) :
    Gathered part s :=
  h.keeps hp (gathered_ofProblem part) fun hs hsteps hgathered =>
    hgathered.steps hs hlasts hsteps

/-- What the members of a class bring does not depend on the order in which they are listed. -/
theorem Solver.Gathered.perm_classMembers (h : Gathered part s) (n : NodeId) :
    (part.read (s.edgesOf (s.representative n))).Perm
      (((s.classMembers n).toList.filter fun m => s.loaded.contains m).flatMap fun m =>
        part.read (s.graph.edgesAt m)) := by
  have hmembers := (h.classes.perm_classMembers n).filter fun m => s.loaded.contains m
  exact (h.perm (h.classes.find_find n)).trans (hmembers.flatMap_right _).symm

/-- **No list of a class loses or repeats a constraint**, whatever was done to the solver. Lists are
kept at representatives. The members of a class of two nodes or more are all loaded. The loads and
the stores of a class are those of its loaded members, each as often as the members have it. A copy
or a field address of a loaded node waits at the class of the node, unless its two ends share a
class already. -/
theorem gathered_of_reachable (hp : p.Made) (h : Reachable .any p s) :
    (∀ r ∈ s.edges, s.representative r = r) ∧
    (∀ n, 2 ≤ s.classes.classSize n → ∀ m ∈ s.classMembers n, s.loaded.contains m = true) ∧
    (∀ r, s.representative r = r →
      (s.edgesOf r).loads.Perm
        (((s.classMembers r).toList.filter fun n => s.loaded.contains n).flatMap
          s.graph.loadOut) ∧
      (s.edgesOf r).stores.Perm
        (((s.classMembers r).toList.filter fun n => s.loaded.contains n).flatMap
          s.graph.storeIn)) ∧
    (∀ a b, s.loaded.contains a = true →
      (s.graph.hasEdge .copy a b = true →
        (a, b) ∈ (s.edgesOf (s.representative a)).copies ∨
          s.representative a = s.representative b) ∧
      (s.graph.hasEdge .gep a b = true →
        (a, b) ∈ (s.edgesOf (s.representative a)).geps ∨
          s.representative a = s.representative b)) := by
  have hv := (h.coherent hp).valid
  have hloads := h.gathered hp ClassEdges.Part.lasts_loads
  have hstores := h.gathered hp ClassEdges.Part.lasts_stores
  refine ⟨fun r hr => hloads.keys hr, fun n hsize m hm => ?_, fun r hr => ?_, fun a b ha => ?_⟩
  · obtain ⟨y, hyn, hne⟩ := hloads.classes.exists_ne_of_classSize hsize m
    have hmn := (hloads.classes.mem_classMembers n m).mp hm
    exact hv.edges.loaded (Eq.trans hmn hyn.symm) hne.symm
  · have hl := hloads.perm_classMembers r
    have hs := hstores.perm_classMembers r
    rw [hr] at hl hs
    exact ⟨hl, hs⟩
  · refine ⟨fun hedge => ?_, fun hedge => ?_⟩
    · have hmem := List.mem_map_of_mem (f := (a, ·)) (hv.graph.mem_copyOut.mpr hedge)
      refine (hv.edges.copies.kept ha hmem).imp_right fun hdone => ?_
      exact hdone.resolve_right List.not_mem_nil
    · have hmem := List.mem_map_of_mem (f := (a, ·)) (hv.graph.mem_gepOut.mpr hedge)
      refine (hv.edges.geps.kept ha hmem).imp_right fun hdone => ?_
      exact hdone.resolve_right List.not_mem_nil

/-- In the sample the nodes 5 and 2 were merged by hand, and 2 has a load and a store. -/
theorem gathered_sampleHistory :
    sampleHistory.classMembers 2 = .ofList [2, 5] ∧
      (sampleHistory.edgesOf 2).loads = [9] ∧
      (sampleHistory.edgesOf 2).loads.Perm
        (((sampleHistory.classMembers 2).toList.filter fun n =>
          sampleHistory.loaded.contains n).flatMap sampleHistory.graph.loadOut) ∧
      sampleHistory.loaded.contains 5 = true := by
  have hmembers : sampleHistory.classMembers 2 = .ofList [2, 5] := by decide +kernel
  have hsize : 2 ≤ sampleHistory.classes.classSize 2 := by decide +kernel
  have hrep : sampleHistory.representative 2 = 2 := by decide +kernel
  obtain ⟨-, hloaded, hlists, -⟩ :=
    gathered_of_reachable sampleProblem_made reachable_sampleHistory
  refine ⟨hmembers, by decide +kernel, (hlists 2 hrep).1, hloaded 2 hsize 5 ?_⟩
  rw [hmembers]
  exact (IdSet.mem_ofList _ _).mpr (by decide)

end PointsTo
