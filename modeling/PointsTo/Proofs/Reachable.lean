import PointsTo.Proofs.Solver.Run

/-!
# Reachable states

A user of the solver may call its operations in any order, with any arguments, and go on after an
error with the state that the error left. The reachable states are those that such a history leads
to; a scope restricts the nodes that the operations may name.

## Main definitions

* `Problem.Made`: graph and functions were made by adding nodes, constraints and functions
* `Operation`: the operations of the solver
* `Scope`, `Scope.any`, `Scope.known`: the nodes that operations may name
* `Reachable`: the states that a history of operations leads to
* `Solver.after`: the state after a list of operations
* `Operation.Licensed`: a licence covers an operation
* `Licence.following`: operations by hand follow a rule
* `sampleProblem`, `sampleSolver`: a small program with indirect calls

## Main results

* `Operation.steps`: an operation is a sequence of steps that its scope allows
* `Reachable.coherent`: every reachable state is coherent
* `Reachable.keeps`: what the steps of a scope keep holds of every reachable state
-/

namespace PointsTo

open Solver

variable {p : Problem} {s t : Solver}

/-- Graph and functions were made by adding nodes, constraints and functions. -/
structure Problem.Made (p : Problem) : Prop where
  graph : p.graph.Built
  functions : ∃ ds, p.functions = .ofList ds

/-- The operations of the solver that may change it. -/
inductive Operation : Type 1 where
  /-- An operation by hand. -/
  | hand (op : Hand)
  /-- Makes every class of the graph wait. -/
  | enqueueNodes
  /-- Looks at the address edges. -/
  | seed
  /-- Treats classes until none waits. -/
  | solve
  /-- Runs the analysis with a source of call targets. -/
  | analyze {σ : Type} (source : TargetSource σ) (memory : σ)
  /-- Connects the callees of a round. -/
  | connect (targets : CallEdges)
  /-- Connects one callee of a call. -/
  | connectCall (added : CopySet) (site : CallSite) (callee : FunctionDecl)
  /-- Connects one callee of a fork. -/
  | connectFork (added : CopySet) (site : CallSite) (callee : FunctionDecl)
  /-- Makes the memory of a site. -/
  | allocate (added : CopySet) (site : SiteId)

namespace Operation

/-- The state that an operation leaves, whether it fails or not. -/
def apply : Operation → Solver → Solver
  | hand op, s => op.apply s
  | enqueueNodes, s => s.enqueueNodes
  | seed, s => s.seed.1
  | solve, s => s.solve.1
  | analyze source memory, s => (Analysis.run ⟨s, source, memory⟩).1.solver
  | connect targets, s => (s.connect targets).1
  | connectCall added site callee, s => (s.connectCall added site callee).1.1
  | connectFork added site callee, s => (s.connectFork added site callee).1
  | allocate added site, s => (s.allocate added site).1.1

/-- The nodes that an operation names. -/
def nodes : Operation → List NodeId
  | hand op => op.nodes
  | connectCall _ site callee => site.nodes ++ callee.nodes
  | connectFork _ site callee => site.nodes ++ callee.nodes
  | enqueueNodes | seed | solve | analyze _ _ | connect _ | allocate _ _ => []

end Operation

/-- Which nodes an operation may name in a state. -/
abbrev Scope := Solver → NodeId → Prop

/-- Any node at all. -/
def Scope.any : Scope := fun _ _ => True

/-- The nodes of the graph. -/
def Scope.known : Scope := fun s n => s.graph.hasNode n = true

/-- **The states that a history of operations leads to**, from the one before the analysis. -/
inductive Reachable (scope : Scope) (p : Problem) : Solver → Prop
  | start {s : Solver} : ofProblem p = .ok s → Reachable scope p s
  | apply {s : Solver} (op : Operation) : Reachable scope p s → (∀ n ∈ op.nodes, scope s n) →
      Reachable scope p (op.apply s)

/-- The state after operations, one after the other. -/
def Solver.after (s : Solver) (ops : List Operation) : Solver :=
  ops.foldl (fun s op => op.apply s) s

@[simp] theorem Solver.after_append_singleton (s : Solver) (ops : List Operation) (op : Operation) :
    s.after (ops ++ [op]) = op.apply (s.after ops) := by
  simp [Solver.after]

/-- Whatever is done to a reachable state leads to a reachable state. -/
theorem Reachable.after (h : Reachable .any p s) (ops : List Operation) :
    Reachable .any p (s.after ops) := by
  induction ops using List.reverseRecOn with
  | nil => exact h
  | append_singleton ops op ih =>
    rw [Solver.after_append_singleton]
    exact .apply op ih fun _ _ => trivial

/-! ## Operations as steps -/

/-- The steps of an analysis, and all that operations within a scope may do. -/
def Licence.within (scope : Scope) : Licence where
  hand s op := ∀ n ∈ op.nodes, scope s n
  copy s a b := (scope s a ∧ scope s b) ∨ Licence.analysis.copy s a b
  allocate _ _ := True

theorem Licence.analysis_le_within (scope : Scope) : .analysis ≤ Licence.within scope :=
  ⟨fun h => h.elim, .inr, fun _ => trivial⟩

/-- A licence covers an operation: what it does by hand, copies between the nodes that it names, and
memory. -/
structure Operation.Licensed (L : Licence) (s : Solver) (op : Operation) : Prop where
  hand : ∀ {h}, op = .hand h → L.hand s h
  copy : ∀ {a b}, a ∈ op.nodes → b ∈ op.nodes → L.copy s a b
  allocate : ∀ i, L.allocate s i

/-- By hand what a rule for operations allows; copies and memory are free. -/
def Licence.following (rule : Solver → Operation → Prop) : Licence where
  hand s op := rule s (.hand op)
  copy _ _ _ := True
  allocate _ _ := True

theorem Licence.analysis_le_following (rule : Solver → Operation → Prop) :
    .analysis ≤ Licence.following rule :=
  ⟨fun h => h.elim, fun _ => trivial, fun _ => trivial⟩

/-- An operation that follows the rule is covered. -/
theorem Operation.licensed_following {rule : Solver → Operation → Prop} {op : Operation}
    (hop : rule s op) : op.Licensed (.following rule) s := by
  refine ⟨?_, fun _ _ => trivial, fun _ => trivial⟩
  rintro hand rfl
  exact hop

/-- **An operation is a sequence of steps** of an analysis and of a licence that covers it. A callee
whose flow is added by hand need not be connected; the flow is allowed since its nodes are named. -/
theorem Operation.Licensed.steps {L : Licence} {op : Operation} (hop : op.Licensed L s)
    (hL : .analysis ≤ L) (hs : s.Coherent) : Steps L s (op.apply s) := by
  cases op with
  | hand op => exact .single (.hand op (hop.hand rfl))
  | enqueueNodes => exact steps_enqueueAll fun n hn => ConstraintGraph.mem_nodeIds.mp hn
  | seed => exact steps_seedEdges fun e he => he
  | solve => exact steps_solve hs
  | analyze source memory => exact Analysis.steps_run (a := ⟨s, source, memory⟩) hL hs
  | connect targets => exact steps_connect hL hs targets
  | connectCall added site callee =>
    refine .single (.wiring (wiring_connectCall s added site callee) (fun a b hab => ?_) ?_)
    · obtain ⟨ha, hb⟩ := hab.mem_nodes
      exact hop.copy ha hb
    · exact fun i _ => hop.allocate i
  | connectFork added site callee =>
    refine .single (.wiring (wiring_connectFork (A := fun _ => False) s added site callee)
      (fun a b hab => ?_) ?_)
    · obtain ⟨ha, hb⟩ := hab.mem_nodes
      exact hop.copy ha hb
    · exact fun i _ => hop.allocate i
  | allocate added site =>
    refine .single (.wiring (wiring_allocate (F := fun _ _ => False) s added site) ?_ ?_)
    · exact fun _ _ h => h.elim
    · exact fun i _ => hop.allocate i

/-- **An operation is a sequence of steps that its scope allows.** -/
theorem Operation.steps {scope : Scope} (op : Operation) (hs : s.Coherent)
    (hscope : ∀ n ∈ op.nodes, scope s n) : Steps (.within scope) s (op.apply s) := by
  have hop : op.Licensed (.within scope) s := by
    refine ⟨?_, fun ha hb => .inl ⟨hscope _ ha, hscope _ hb⟩, fun _ => trivial⟩
    rintro h rfl
    exact hscope
  exact hop.steps (Licence.analysis_le_within scope) hs

/-! ## Coherence -/

/-- The state before the analysis holds no class of two nodes, no waiting class and no
constraint. -/
theorem valid_ofProblem (hp : p.graph.Valid) (h : ofProblem p = .ok s) : s.Valid := by
  obtain ⟨-, -, rfl⟩ := ofProblem_eq_ok h
  have hedges : ∀ r, edgesOf
      { settings := p.settings
        graph := p.graph
        outsideAddresses := p.outsideAddresses
        store := p.store
        worklist := .empty p.settings.worklistOrder
        functions := p.functions
        sites := sitesById p.sites } r = {} := fun r => Std.ExtTreeMap.getD_empty
  have hkept : ∀ {α : Type} (part : ClassEdges.Part α) (done : α → Prop), Kept part done
      { settings := p.settings
        graph := p.graph
        outsideAddresses := p.outsideAddresses
        store := p.store
        worklist := .empty p.settings.worklistOrder
        functions := p.functions
        sites := sitesById p.sites } := by
    intro α part done
    refine ⟨fun {r e} he => ?_, fun {n e} hn _ => ?_⟩
    · rw [hedges] at he
      exact absurd he (part.not_mem_read_empty e)
    · simp at hn
  refine ⟨Partition.valid_empty, Worklist.valid_empty _, hp, hkept _ _, hkept _ _, hkept _ _,
    hkept _ _, fun {x y} hxy hne => absurd ?_ hne⟩
  change (∅ : Partition).find x = (∅ : Partition).find y at hxy
  rwa [Partition.find_empty, Partition.find_empty] at hxy

theorem coherent_ofProblem (hp : p.Made) (h : ofProblem p = .ok s) : s.Coherent := by
  obtain ⟨ds, hds⟩ := hp.functions
  refine ⟨valid_ofProblem hp.graph.valid h, registered_ofProblem ?_ h, fun hseeded => ?_⟩
  · rw [hds]
    exact FunctionTable.valid_ofList ds
  · obtain ⟨-, -, rfl⟩ := ofProblem_eq_ok h
    cases hseeded

/-- **Every reachable state is coherent.** -/
theorem Reachable.coherent {scope : Scope} (hp : p.Made) (h : Reachable scope p s) :
    s.Coherent := by
  induction h with
  | start hs => exact coherent_ofProblem hp hs
  | apply op _ hscope ih => exact ih.steps (op.steps ih hscope)

/-- Operations, one after the other, are a sequence of steps. -/
theorem Solver.Coherent.steps_after (hs : s.Coherent) (ops : List Operation) :
    Steps (.within .any) s (s.after ops) := by
  induction ops using List.reverseRecOn with
  | nil => exact .refl
  | append_singleton ops op ih =>
    rw [Solver.after_append_singleton]
    exact ih.trans (op.steps (hs.steps ih) fun _ _ => trivial)

/-- **What the steps that a scope allows keep holds of every reachable state.** -/
theorem Reachable.keeps {scope : Scope} {I : Solver → Prop} (hp : p.Made)
    (h : Reachable scope p s) (hstart : ∀ {s}, ofProblem p = .ok s → I s)
    (hsteps : ∀ {s t}, s.Coherent → Steps (.within scope) s t → I s → I t) : I s := by
  induction h with
  | start hs => exact hstart hs
  | apply op hs hscope ih =>
    have hcoherent := hs.coherent hp
    exact hsteps hcoherent (op.steps hcoherent hscope) ih

/-! ## A sample

A function with one parameter, a variadic node and memory of its own is called and forked through
one pointer; the parameter is loaded from and stored to. -/

/-- The constraints of the sample. -/
def sampleConstraints : List Constraint :=
  [.addr 0 1, .addr 5 8, .load 9 2, .store 2 10, .copy 7 11]

/-- The graph of the sample. -/
def sampleGraph : ConstraintGraph :=
  ((ConstraintGraph.ofKinds (.replicate 12 .value)).insertAll sampleConstraints).1

/-- The function of the sample. -/
def sampleFunction : FunctionDecl where
  id := 3
  name := "f"
  object := 1
  formals := [2]
  ret := some 3
  vararg := some 4
  isHeapAllocator := true

/-- The sites of the sample. -/
def sampleSites : List CallSite :=
  [{ id := 0, kind := .call, funPtr := 0, args := [5, 6], ret := some 7 },
    { id := 1, kind := .fork, funPtr := 0, args := [6] }]

/-- The sample. -/
def sampleProblem : Problem where
  graph := sampleGraph
  functions := .ofList [sampleFunction]
  sites := sampleSites

/-- The solver of the sample before the analysis. -/
def sampleSolver : Solver where
  settings := {}
  graph := sampleGraph
  outsideAddresses := []
  store := ∅
  worklist := .empty .fifo
  functions := .ofList [sampleFunction]
  sites := sitesById sampleSites

theorem sampleProblem_made : sampleProblem.Made :=
  ⟨.insertAll sampleConstraints (.ofKinds _), [sampleFunction], rfl⟩

theorem ofProblem_sampleProblem : ofProblem sampleProblem = .ok sampleSolver := rfl

end PointsTo
