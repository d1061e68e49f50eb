import PointsTo.Proofs.Confluence
import PointsTo.Proofs.Snapshot

/-!
# Soundness for inclusions

An analysis by inclusion lets what one node points to flow into another node and keeps the two
apart; it finds calls as it goes. Its answer is the least relation that is closed under the rules
below. Unification only ever makes more nodes share a set: whatever can be derived by the rules is
found, and two nodes with an object in common may alias.

The rules are stated for a problem and do not mention any run. The memory of a call is therefore
named by its site; the nodes that stand for it are those that the run has handed out.

## Main definitions

* `Place`: a node of the problem, or the memory of a site
* `Problem.MayPoint`: the least solution of the inclusions
* `Solver.nodeOf?`: the node that stands for a place
* `Solver.Holds`: a place points to another one in a state

## Main results

* `Problem.MayPoint.holds`: a result with all callees connected holds what the inclusions derive
* `mayPoint_analyze`: so does the result of the analysis, and its snapshot shows all aliases
-/

namespace PointsTo

open Solver

/-- What may point or be pointed to: a node of the problem, or the memory that a site allocates. -/
inductive Place where
  /-- A node of the problem. -/
  | node (n : NodeId)
  /-- The value that a site allocates. -/
  | value (i : SiteId)
  /-- The object that it points to. -/
  | object (i : SiteId)
deriving DecidableEq, Repr

/-- **The least solution of the inclusions of a problem.** The rules of calls ask for a site, an
object to which its function pointer may point, and the function that the object stands for. -/
inductive Problem.MayPoint (p : Problem) : Place → Place → Prop
  | addr {o x : NodeId} : p.graph.hasEdge .addr o x = true → MayPoint p (.node x) (.node o)
  | copy {a b : NodeId} {o : Place} : p.graph.hasEdge .copy a b = true →
      MayPoint p (.node a) o → MayPoint p (.node b) o
  | gep {a b : NodeId} {o : Place} : p.graph.hasEdge .gep a b = true →
      MayPoint p (.node a) o → MayPoint p (.node b) o
  /-- What an object points to flows into the destination of a load through a pointer to it. -/
  | load {x r : NodeId} {m o : Place} : p.graph.hasEdge .load x r = true →
      MayPoint p (.node x) m → MayPoint p m o → MayPoint p (.node r) o
  /-- What is stored through a pointer flows into each object that the pointer may point to. -/
  | store {q x : NodeId} {m o : Place} : p.graph.hasEdge .store q x = true →
      MayPoint p (.node x) m → MayPoint p (.node q) o → MayPoint p m o
  /-- Arguments flow into parameters and results into results. -/
  | flow {site : CallSite} {callee : FunctionDecl} {f a b : NodeId} {o : Place} :
      (sitesById p.sites)[site.id]? = some site → MayPoint p (.node site.funPtr) (.node f) →
      p.functions.forObject? f = some callee → CallFlow p.settings site callee a b →
      MayPoint p (.node a) o → MayPoint p (.node b) o
  /-- A callee that allocates gives the site a value, which points to an object of its own. -/
  | memory {site : CallSite} {callee : FunctionDecl} {f : NodeId} {i : SiteId} :
      (sitesById p.sites)[site.id]? = some site → MayPoint p (.node site.funPtr) (.node f) →
      p.functions.forObject? f = some callee → MemorySite p.settings site callee i →
      MayPoint p (.value i) (.object i)
  /-- The value flows into the result of the call. -/
  | result {site : CallSite} {callee : FunctionDecl} {f r : NodeId} {i : SiteId} {o : Place} :
      (sitesById p.sites)[site.id]? = some site → MayPoint p (.node site.funPtr) (.node f) →
      p.functions.forObject? f = some callee → MemorySite p.settings site callee i →
      site.ret = some r → MayPoint p (.value i) o → MayPoint p (.node r) o

namespace Solver

variable {s t : Solver} {a b n : NodeId} {x y o : Place}

/-- The node that stands for a place. -/
def nodeOf? (s : Solver) : Place → Option NodeId
  | .node n => some n
  | .value i => (s.allocation? i).map Allocation.value
  | .object i => (s.allocation? i).map Allocation.object

/-- **A place points to another one**: nodes of the graph stand for both. -/
def Holds (s : Solver) (x o : Place) : Prop :=
  ∃ n m, s.nodeOf? x = some n ∧ s.nodeOf? o = some m ∧ s.graph.hasNode n = true ∧ m ∈ s.pointsTo n

/-- A class has only nodes of the graph, or only one node. -/
theorem Contained.hasNode_of_same (h : s.Contained) (hab : s.Same a b)
    (ha : s.graph.hasNode a = true) : s.graph.hasNode b = true := by
  by_cases hb : s.representative b = b
  · rw [← hb, ← hab]
    exact h.hasNode_representative ha
  · exact (h.merged hb).1

/-- What a node points to its whole class points to. -/
theorem Holds.of_same (h : s.Holds x o) (hc : s.Contained) (hx : s.nodeOf? x = some a)
    (hy : s.nodeOf? y = some b) (hab : s.Same a b) : s.Holds y o := by
  obtain ⟨n, m, hn, hm, hnode, hmem⟩ := h
  obtain rfl : a = n := Option.some.inj (hx.symm.trans hn)
  exact ⟨b, m, hy, hm, hc.hasNode_of_same hab hnode, s.solution.respects hab hmem⟩

/-- A node of the problem stands for itself. -/
theorem Holds.mem_pointsTo (h : s.Holds (.node n) o) :
    ∃ m, s.nodeOf? o = some m ∧ m ∈ s.pointsTo n := by
  obtain ⟨k, m, hk, hm, -, hmem⟩ := h
  obtain rfl : n = k := Option.some.inj hk
  exact ⟨m, hm, hmem⟩

end Solver

variable {p : Problem} {s t : Solver} {x y o : Place}

/-- **The result of an analysis holds all that the inclusions derive**, if every callee is connected
that its sets show. A function pointer that holds the object of a function has the function as a
callee; an object that is loaded from shares a class with the destination; and a value is linked to
the result of its call by chains of copies, which lie in one class. -/
theorem Problem.MayPoint.holds (h : p.MayPoint x o) (hp : p.Made) (hs : ofProblem p = .ok s)
    (ht : s.Finished t) (hshown : ∀ {i f}, t.Shows i f → t.calls.hasEdge i f = true) :
    t.Holds x o := by
  obtain ⟨hst, -, hc, hclosed, hh⟩ := ht
  have hcoherent := coherent_ofProblem hp hs
  have htarget : ∀ {site : CallSite} {callee : FunctionDecl} {f : NodeId},
      s.sites[site.id]? = some site → t.Holds (.node site.funPtr) (.node f) →
      s.functions.forObject? f = some callee → t.Connected site callee := by
    intro site callee f hsite hf hcallee
    have hdeclared := hcoherent.registered.functions.get?_of_forObject? hcallee
    obtain ⟨m, hm, hmem⟩ := hf.mem_pointsTo
    obtain rfl : f = m := Option.some.inj hm
    rw [← hst.sites] at hsite
    rw [← hst.functions] at hdeclared hcallee
    exact ⟨hsite, hdeclared, hshown ⟨site, f, callee, hsite, hmem, hcallee, rfl⟩⟩
  obtain ⟨-, -, rfl⟩ := ofProblem_eq_ok hs
  induction h with
  | @addr o x hedge =>
    have hends := hcoherent.valid.graph.ends hedge
    exact ⟨x, o, rfl, rfl, hst.hasNode hends.2, hclosed.addr (hst.hasEdge hedge)⟩
  | copy hedge _ ih => exact ih.of_same hc rfl rfl (hclosed.copy (hst.hasEdge hedge))
  | gep hedge _ ih => exact ih.of_same hc rfl rfl (hclosed.gep (hst.hasEdge hedge))
  | load hedge _ _ ihx ihm =>
    obtain ⟨m, hm, hmem⟩ := ihx.mem_pointsTo
    exact ihm.of_same hc hm rfl (hclosed.load (hst.hasEdge hedge) m hmem)
  | store hedge _ _ ihx ihq =>
    obtain ⟨m, hm, hmem⟩ := ihx.mem_pointsTo
    have hsame : t.Same m _ := hclosed.store (hst.hasEdge hedge) m hmem
    exact ihq.of_same hc rfl hm hsame.symm
  | flow hsite _ hcallee hflow _ ihf ih =>
    have hconn := htarget hsite ihf hcallee
    exact ih.of_same hc rfl rfl ((hh.served hclosed hconn).flow (hst.settings ▸ hflow))
  | memory hsite _ hcallee hmemory ihf =>
    obtain ⟨rfl, hkind, halloc⟩ := hmemory
    have hconn := htarget hsite ihf hcallee
    obtain ⟨m, hm⟩ := hh.made hconn hkind (hst.settings ▸ halloc)
    refine ⟨m.value, m.object, ?_, ?_, (hc.allocations hm).1, (hh.furnished _ _ hm).object⟩
    · rw [nodeOf?, hm, Option.map_some]
    · rw [nodeOf?, hm, Option.map_some]
  | result hsite _ hcallee hmemory hret _ ihf ih =>
    obtain ⟨rfl, hkind, halloc⟩ := hmemory
    have hconn := htarget hsite ihf hcallee
    obtain ⟨m, hm⟩ := hh.made hconn hkind (hst.settings ▸ halloc)
    have hlinked := (hh.furnished _ _ hm).value hconn.registered hret
    refine ih.of_same hc ?_ rfl (hlinked.same_of_copies hclosed.copy)
    rw [nodeOf?, hm, Option.map_some]

/-- **The analysis is sound for inclusions.** Without a bound on the rounds it does not fail; all
that the inclusions of the problem derive is in the points-to sets of the result; and its snapshot
tells of any two places with an object in common that they may alias. -/
theorem mayPoint_analyze (hp : p.Plain) (hs : ofProblem p = .ok s)
    (hrounds : p.settings.maxCallGraphRounds = none) :
    s.analyze.2 = .ok () ∧
    (∀ x o, p.MayPoint x o → ∃ n m, s.analyze.1.nodeOf? x = some n ∧
      s.analyze.1.nodeOf? o = some m ∧ m ∈ s.analyze.1.pointsTo n) ∧
    ∀ x y o, p.MayPoint x o → p.MayPoint y o → ∃ n m, s.analyze.1.nodeOf? x = some n ∧
      s.analyze.1.nodeOf? y = some m ∧ s.analyze.1.freeze.mayAlias n m = true := by
  have hstage := stage_ofProblem hp hs
  have hok : s.analyze.2 = .ok () := (hstage.agree hstage (fun _ _ _ => rfl) rfl).1
  have hcoherent := hstage.minimal.coherent
  have hend := finished_analyze hcoherent hstage.minimal.contained hstage.honoured hok
  have hlimit : s.settings.maxCallGraphRounds = none := by
    obtain ⟨-, -, rfl⟩ := ofProblem_eq_ok hs
    exact hrounds
  have hascending : s.analyze.1.store.Ascending := by
    refine (ascending_ofProblem ?_ hs).steps hcoherent Licence.ordered_analysis
      (Analysis.steps_run (a := ⟨s, .builtin, ()⟩) (Licence.le_refl _) hcoherent)
    rw [hp.store]
    exact .empty
  have hholds : ∀ {x o}, p.MayPoint x o → s.analyze.1.Holds x o := fun h =>
    h.holds hp.made hs hend (hasEdge_of_shows_run hcoherent hlimit hok)
  refine ⟨hok, fun x o h => ?_, fun x y o hx hy => ?_⟩
  · obtain ⟨n, m, hn, hm, -, hmem⟩ := hholds h
    exact ⟨n, m, hn, hm, hmem⟩
  · obtain ⟨n, k, hn, hk, hnode, hmem⟩ := hholds hx
    obtain ⟨n', k', hn', hk', hnode', hmem'⟩ := hholds hy
    obtain rfl : k = k' := Option.some.inj (hk.symm.trans hk')
    exact ⟨n, n', hn, hn', (mayAlias_freeze hascending hnode hnode').mpr (.inr ⟨k, hmem, hmem'⟩)⟩

/-- The sample with the address of the object that the first argument points to taken once more, by
what is stored through the parameter. -/
def sampleProblemStored : Problem :=
  { sampleProblem with graph := (sampleGraph.insertAll [.addr 10 8]).1 }

/-- The solver of this problem before the analysis. -/
def sampleSolverStored : Solver := { sampleSolver with graph := sampleProblemStored.graph }

/-- The call of the sample. -/
def sampleCall : CallSite where
  id := 0
  kind := .call
  funPtr := 0
  args := [5, 6]
  ret := some 7

/-- What is loaded from the parameter was stored there through it; the parameter is that of a callee
found on the way. Its class is another one than that of the parameter. -/
theorem mayPoint_analyze_sample :
    sampleSolverStored.analyze.2 = .ok () ∧
    (∃ n m, sampleSolverStored.analyze.1.nodeOf? (.node 7) = some n ∧
      sampleSolverStored.analyze.1.nodeOf? (.object 0) = some m ∧
      m ∈ sampleSolverStored.analyze.1.pointsTo n) ∧
    (∃ n m, sampleSolverStored.analyze.1.nodeOf? (.node 9) = some n ∧
      sampleSolverStored.analyze.1.nodeOf? (.node 2) = some m ∧
      sampleSolverStored.analyze.1.freeze.mayAlias n m = true) ∧
    sampleSolverStored.analyze.1.representative 9 ≠
      sampleSolverStored.analyze.1.representative 2 := by
  have hplain : sampleProblemStored.Plain :=
    ⟨⟨.insertAll _ sampleProblem_made.graph, [sampleFunction], rfl⟩, rfl, rfl⟩
  have hs : ofProblem sampleProblemStored = .ok sampleSolverStored := rfl
  obtain ⟨hok, hsets, haliases⟩ := mayPoint_analyze hplain hs rfl
  have hsite : (sitesById sampleProblemStored.sites)[sampleCall.id]? = some sampleCall := by
    decide +kernel
  have hcallee : sampleProblemStored.functions.forObject? 1 = some sampleFunction := by
    decide +kernel
  have hf : sampleProblemStored.MayPoint (.node 0) (.node 1) := .addr (by decide +kernel)
  have hparameter : sampleProblemStored.MayPoint (.node 2) (.node 8) := by
    have hflow : CallFlow sampleProblemStored.settings sampleCall sampleFunction 5 2 :=
      ParameterFlow.argument (i := 0) rfl rfl
    exact .flow hsite hf hcallee hflow (.addr (by decide +kernel))
  have hloaded : sampleProblemStored.MayPoint (.node 9) (.node 8) := by
    refine .load (by decide +kernel) hparameter (.store (q := 10) (by decide +kernel) hparameter ?_)
    exact .addr (by decide +kernel)
  have hmemory : MemorySite sampleProblemStored.settings sampleCall sampleFunction 0 :=
    ⟨rfl, rfl, rfl, rfl⟩
  have hresult : sampleProblemStored.MayPoint (.node 7) (.object 0) :=
    .result hsite hf hcallee hmemory rfl (.memory hsite hf hcallee hmemory)
  exact ⟨hok, hsets _ _ hresult, haliases _ _ _ hloaded hparameter, by decide +kernel⟩

end PointsTo
