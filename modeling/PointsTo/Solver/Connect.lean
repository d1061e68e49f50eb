import PointsTo.Solver.Merge

/-!
# Connecting indirect calls

A callee is connected to a site by copies: arguments into parameters, the result of the callee into
the result of the call, arguments beyond the parameters into the variadic node. A fork hands its
first argument to the first parameter. When the callee allocates memory, the site gets memory of its
own, made once, which flows into the result of the call.

## Main definitions

* `CopySet`: the copies that were added
* `Solver.connectCopy`: one copy between classes
* `Solver.allocate`: the memory of a site
* `Solver.connectCall`, `Solver.connectFork`: the copies of one callee
* `Solver.connect`: all callees of a round
-/

namespace PointsTo

/-- A set of copies, each as source and destination. -/
abbrev CopySet := Std.ExtTreeSet (NodeId × NodeId) lexOrd.compare

namespace Solver

/-- Adds a copy between the classes of `src` and `dst`. An edge that is new in the graph is listed
in `added`, and waits at its source if the constraints of that node joined their class before. -/
def connectCopy (s : Solver) (added : CopySet) (src dst : NodeId) : Solver × CopySet :=
  let src := s.representative src
  let dst := s.representative dst
  match s.graph.addCopy src dst with
  | (_, false) => (s, added)
  | (graph, true) =>
    let edges :=
      if s.loaded.contains src then
        s.edges.insert src (s.edges.getD src {} ++ { copies := [(src, dst)] })
      else s.edges
    ({ s with graph, edges }, added.insert (src, dst))

/-- Adds copies in order. -/
def connectCopies (s : Solver) (added : CopySet) :
    List (NodeId × NodeId) → Solver × CopySet
  | [] => (s, added)
  | (src, dst) :: rest =>
    let (s, added) := s.connectCopy added src dst
    s.connectCopies added rest

/-- The memory of a site that has none: two fresh nodes, the first pointing to the second. -/
def createAllocation (s : Solver) (site : SiteId) : Solver × Allocation :=
  let (graph, value) := s.graph.addNode .dummyValue
  let (graph, object) := graph.addNode .dummyObject
  let made : Allocation := ⟨value, object⟩
  ({ s with
      graph
      store := (s.store.insert value object).1
      allocations := s.allocations.insert site made
      counters.dummyObjects := s.counters.dummyObjects + 1 }.report
    (.allocationCreated site value object), made)

/-- **The memory of a site**, made when first asked for; it flows into the result of the call. -/
def allocate (s : Solver) (added : CopySet) (site : SiteId) :
    (Solver × CopySet) × Except AnalysisError Allocation :=
  match s.sites[site]? with
  | none => ((s, added), .error (.unknownCallSite site))
  | some registered =>
    let (s, made) := match s.allocation? site with
      | some made => (s, made)
      | none => s.createAllocation site
    (s.connectCopies added (registered.ret.toList.map (made.value, ·)), .ok made)

/-- The copy of the result of the callee into the result of the call. -/
def resultCopies (site : CallSite) (callee : FunctionDecl) : List (NodeId × NodeId) :=
  callee.ret.toList.zip site.ret.toList

/-- The copies of the arguments into the parameters. -/
def argumentCopies (site : CallSite) (callee : FunctionDecl) : List (NodeId × NodeId) :=
  site.args.zip callee.formals

/-- The arguments beyond the parameters. -/
def surplusArgs (site : CallSite) (callee : FunctionDecl) : List NodeId :=
  site.args.drop callee.formals.length

/-- Reports a call with fewer arguments than parameters. -/
def reportMissing (s : Solver) (site : CallSite) (callee : FunctionDecl) : Solver :=
  if site.args.length < callee.formals.length then
    s.report (.argumentsMissing site.id callee.name site.args.length callee.formals.length)
  else s

/-- The arguments beyond the parameters flow into the variadic node, if there is one and the
settings ask for it. -/
def connectSurplus (s : Solver) (added : CopySet) (site : CallSite) (callee : FunctionDecl) :
    Solver × CopySet :=
  match surplusArgs site callee, callee.vararg with
  | [], _ => (s, added)
  | surplus, some vararg =>
    if s.settings.connectVarargs then s.connectCopies added (surplus.map (·, vararg))
    else (s.report (.varargIgnored site.id callee.name), added)
  | surplus, none => (s.report (.argumentsSurplus site.id callee.name surplus.length), added)

/-- The copies of one callee of a call, the memory of the site apart. -/
def connectParameters (s : Solver) (added : CopySet) (site : CallSite) (callee : FunctionDecl) :
    Solver × CopySet :=
  let (s, added) := s.connectCopies added (resultCopies site callee)
  let (s, added) := (s.reportMissing site callee).connectCopies added (argumentCopies site callee)
  s.connectSurplus added site callee

/-- **Connects one callee of a call.** -/
def connectCall (s : Solver) (added : CopySet) (site : CallSite) (callee : FunctionDecl) :
    (Solver × CopySet) × Except AnalysisError Unit :=
  if callee.isHeapAllocator && s.settings.modelIndirectHeapAllocators then
    match s.allocate added site.id with
    | (reached, .error e) => (reached, .error e)
    | ((s, added), .ok _) => (s.connectParameters added site callee, .ok ())
  else (s.connectParameters added site callee, .ok ())

/-- **Connects one callee of a fork.** -/
def connectFork (s : Solver) (added : CopySet) (site : CallSite) (callee : FunctionDecl) :
    Solver × CopySet :=
  match site.forkArg, callee.forkEntry with
  | some actual, some formal => s.connectCopy added actual formal
  | none, _ => (s.report (.forkWithoutArgument site.id callee.name), added)
  | some _, none => (s.report (.forkWithoutParameter site.id callee.name), added)

/-! ## A round of callees -/

/-- The function of a name. -/
def resolveCallee (s : Solver) (callee : FunctionId) : Except AnalysisError FunctionDecl :=
  match s.functions.get? callee with
  | none => .error (.unknownFunction callee)
  | some declared => .ok declared

/-- A site with each of its callees; an unknown site is refused even without callees. -/
def resolveSite (s : Solver) (site : SiteId) (callees : IdSet) :
    Except AnalysisError (List (CallSite × FunctionDecl)) :=
  match s.sites[site]? with
  | none => .error (.unknownCallSite site)
  | some registered => (callees.toList.mapM s.resolveCallee).map (·.map (registered, ·))

/-- The site and the function of every pair, in ascending order; the first unknown name, a site
before its callees, is the error. -/
def resolve (s : Solver) (targets : CallEdges) :
    Except AnalysisError (List (CallSite × FunctionDecl)) :=
  (targets.toList.mapM fun entry => s.resolveSite entry.1 entry.2).map List.flatten

/-- What a round of connections has reached. -/
structure Round where
  /-- The solver. -/
  solver : Solver
  /-- The copies added. -/
  added : CopySet := ∅
  /-- The sites that gained a callee. -/
  connected : IdSet := ∅

/-- Connects one callee unless it is connected already. -/
def connectPair (r : Round) (site : CallSite) (callee : FunctionDecl) :
    Round × Except AnalysisError Unit :=
  match r.solver.calls.insert site.id callee.id with
  | (_, false) => (r, .ok ())
  | (calls, true) =>
    let s := { r.solver with
      calls, counters.indirectCallEdges := r.solver.counters.indirectCallEdges + 1 }.report
        (.targetConnected site.id callee.name site.isFork)
    let ((solver, added), outcome) :=
      if site.isFork then (s.connectFork r.added site callee, .ok ())
      else s.connectCall r.added site callee
    ({ solver, added, connected := r.connected.insert site.id }, outcome)

/-- Connects callees in order, up to the first error. -/
def connectPairs (r : Round) :
    List (CallSite × FunctionDecl) → Round × Except AnalysisError Unit
  | [] => (r, .ok ())
  | (site, callee) :: rest =>
    match connectPair r site callee with
    | (r, .error e) => (r, .error e)
    | (r, .ok ()) => connectPairs r rest

/-- Ends a round: the sources of the added copies wait, and every site moves to its next state. -/
def closeRound (r : Round) : Solver :=
  let s := r.added.toList.foldl (fun s edge => (s.enqueue edge.1).1) r.solver
  let (calls, changes) := s.calls.recordRound r.connected s.siteIds
  { s with calls }.reportAll changes

/-- **Connects the callees of a round**; tells whether one of them is new. An unknown name is
refused before anything is connected. -/
def connect (s : Solver) (targets : CallEdges) : Solver × Except AnalysisError Bool :=
  match s.resolve targets with
  | .error e => (s, .error e)
  | .ok pairs =>
    match connectPairs { solver := s } pairs with
    | (r, .error e) => (r.solver, .error e)
    | (r, .ok ()) => (closeRound r, .ok (!r.connected.isEmpty))

end Solver

end PointsTo
