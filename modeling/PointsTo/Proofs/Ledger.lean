import PointsTo.Proofs.Linked

/-!
# The ledger

What connecting calls does to the call graph, to the memory of the sites and to the counts of both
is decided by these alone, by the sites and functions, by two settings and by the number of nodes.
The classes and the copies between them have no say in it. The ledger is that part of the state,
with the limit and the count of the rounds beside it: solving leaves it alone, and two states with
one ledger have one ledger again after they have connected the same callees. The same holds of
ledgers that agree but for the limit and the count of the rounds, which connecting does not read.

## Main definitions

* `Ledger`, `Solver.ledger`: the part of the state that connecting calls depends on
* `Ledger.under`: the ledger with another limit and another count of the rounds

## Main results

* `Frame.ledger`: what leaves graph and calls alone leaves the ledger alone
* `ledger_connect`: connecting takes states whose ledgers agree but for the limit and the count of
  the rounds to such states
-/

namespace PointsTo

/-- The part of the state that connecting calls depends on. -/
structure Ledger where
  limit : Option Nat
  varargs : Bool
  allocators : Bool
  nodes : Nat
  functions : FunctionTable
  sites : Std.ExtTreeMap SiteId CallSite
  calls : CallGraph
  allocations : Std.ExtTreeMap SiteId Allocation
  rounds : Nat
  callEdges : Nat
  dummies : Nat

/-- The ledger with another limit and another count of the rounds. -/
def Ledger.under (l : Ledger) (limit : Option Nat) (rounds : Nat) : Ledger :=
  { l with limit, rounds }

namespace Solver

variable {s t : Solver} {r q : Round} {site : CallSite} {callee : FunctionDecl}
  {pairs : List (CallSite × FunctionDecl)} {limit : Option Nat} {rounds : Nat}

/-- The ledger of a state. -/
def ledger (s : Solver) : Ledger where
  limit := s.settings.maxCallGraphRounds
  varargs := s.settings.connectVarargs
  allocators := s.settings.modelIndirectHeapAllocators
  nodes := s.graph.nodeCount
  functions := s.functions
  sites := s.sites
  calls := s.calls
  allocations := s.allocations
  rounds := s.counters.callGraphRounds
  callEdges := s.counters.indirectCallEdges
  dummies := s.counters.dummyObjects

/-! ## What leaves the ledger alone -/

theorem Frame.ledger (h : s.Frame t) : t.ledger = s.ledger := by
  unfold Solver.ledger
  rw [h.settings, h.graph, h.functions, h.sites, h.calls, h.allocations, h.rounds, h.callEdges,
    h.dummies]

theorem ledger_connectCopy (s : Solver) (added : CopySet) (a b : NodeId) :
    (s.connectCopy added a b).1.ledger = s.ledger := by
  rcases s.connectCopy_cases added a b with ⟨heq, -⟩ | ⟨-, -, heq⟩
  · rw [heq]
  · rw [heq]
    rfl

/-- Copies are not in the ledger. -/
theorem ledger_wiring {F : NodeId → NodeId → Prop} {u v : Solver × CopySet}
    (h : Wiring F (fun _ => False) u v) : v.1.ledger = u.1.ledger := by
  refine h.keeps (I := fun v => v.1.ledger = u.1.ledger) (fun {v w} hw hv => ?_) rfl
  cases hw with
  | report e => exact hv
  | copy _ => exact (ledger_connectCopy ..).trans hv
  | memory hi => exact hi.elim
  | allocate hi => exact hi.elim

/-! ## What goes by the ledger -/

theorem ledger_createAllocation (s : Solver) (i : SiteId) :
    (s.createAllocation i).1.ledger =
      { s.ledger with
        nodes := s.ledger.nodes + 2
        allocations := s.ledger.allocations.insert i ⟨s.ledger.nodes, s.ledger.nodes + 1⟩
        dummies := s.ledger.dummies + 1 } := by
  have hmade : (s.createAllocation i).1.allocations =
      s.allocations.insert i (s.createAllocation i).2 := rfl
  unfold ledger
  rw [nodeCount_createAllocation, hmade, createAllocation_snd]
  rfl

/-- Which memory is made depends on the ledger alone. Fresh nodes are named by the number of nodes,
which the ledger holds. -/
theorem ledger_allocate (h : s.ledger = t.ledger.under limit rounds) (added added' : CopySet)
    (i : SiteId) :
    (s.allocate added i).1.1.ledger = (t.allocate added' i).1.1.ledger.under limit rounds := by
  have hsites : s.sites = t.sites := congrArg Ledger.sites h
  have hmade : s.allocation? i = t.allocation? i := congrArg (·.allocations[i]?) h
  have hcopies : ∀ {s : Solver} {added : CopySet} {pairs},
      (s.connectCopies added pairs).1.ledger = s.ledger := fun {s added pairs} =>
    ledger_wiring (wiring_copies s added pairs)
  unfold Solver.allocate
  rw [hsites, hmade]
  cases t.sites[i]? with
  | none => exact h
  | some site =>
    dsimp only
    cases t.allocation? i with
    | some made => rw [hcopies, hcopies, h]
    | none =>
      rw [hcopies, hcopies, ledger_createAllocation, ledger_createAllocation, h]
      rfl

theorem ledger_connectCallee (h : s.ledger = t.ledger.under limit rounds)
    (hsite : s.sites[site.id]? = some site) (callee : FunctionDecl) (added added' : CopySet) :
    (s.connectCallee added site callee).1.ledger =
      (t.connectCallee added' site callee).1.ledger.under limit rounds := by
  have hparams : ∀ {s : Solver} {added : CopySet},
      (s.connectParameters added site callee).1.ledger = s.ledger :=
    ledger_wiring (wiring_connectParameters ..)
  have hfork : ∀ {s : Solver} {added : CopySet},
      (s.connectFork added site callee).1.ledger = s.ledger :=
    ledger_wiring (wiring_connectFork ..)
  have hsite' : t.sites[site.id]? = some site := (congrArg (·.sites[site.id]?) h).symm.trans hsite
  have hallocators : s.settings.modelIndirectHeapAllocators =
      t.settings.modelIndirectHeapAllocators := congrArg Ledger.allocators h
  unfold connectCallee
  split
  · rw [hfork, hfork, h]
  · rw [connectCall_eq hsite, connectCall_eq hsite', hallocators]
    split
    · rw [hparams, hparams, ledger_allocate h added added' site.id]
    · rw [hparams, hparams, h]

theorem ledger_addCallee (s : Solver) (site : CallSite) (callee : FunctionDecl) :
    (s.addCallee site callee).ledger =
      { s.ledger with
        calls := (s.ledger.calls.insert site.id callee.id).1
        callEdges := s.ledger.callEdges + 1 } :=
  rfl

/-! ## Rounds -/

/-- **Connecting callees takes rounds with one ledger to rounds with one ledger.** A callee is new
to both or to neither, as they have one call graph. -/
theorem ledger_connectPairs (h : r.solver.ledger = q.solver.ledger.under limit rounds)
    (hconnected : r.connected = q.connected)
    (hsites : ∀ {site callee}, (site, callee) ∈ pairs → r.solver.sites[site.id]? = some site) :
    (connectPairs r pairs).1.solver.ledger =
        (connectPairs q pairs).1.solver.ledger.under limit rounds ∧
      (connectPairs r pairs).1.connected = (connectPairs q pairs).1.connected := by
  induction pairs generalizing r q with
  | nil => exact ⟨h, hconnected⟩
  | cons pair pairs ih =>
    obtain ⟨site, callee⟩ := pair
    have hsite := hsites List.mem_cons_self
    have hsite' : q.solver.sites[site.id]? = some site :=
      (congrArg (·.sites[site.id]?) h).symm.trans hsite
    have hcalls : r.solver.calls = q.solver.calls := congrArg Ledger.calls h
    unfold connectPairs
    rw [connectPair_eq hsite, connectPair_eq hsite', hcalls]
    split_ifs
    · exact ih h hconnected fun hmem => hsites (List.mem_cons_of_mem _ hmem)
    · refine ih ?_ ?_ fun hmem => ?_
      · refine ledger_connectCallee (s := r.solver.addCallee site callee)
          (t := q.solver.addCallee site callee) ?_ hsite callee r.added q.added
        rw [ledger_addCallee, ledger_addCallee, h]
        rfl
      · exact congrArg (·.insert site.id) hconnected
      · rw [sites_extend]
        exact hsites (List.mem_cons_of_mem _ hmem)

theorem ledger_closeRound (r : Round) :
    (closeRound r).ledger =
      { r.solver.ledger with
        calls :=
          (r.solver.ledger.calls.recordRound r.connected r.solver.ledger.sites.keys).1 } := by
  rw [closeRound_eq, enqueueAll_eq]
  rfl

theorem resolve_congr (hsites : s.sites = t.sites) (hfunctions : s.functions = t.functions)
    (targets : CallEdges) : s.resolve targets = t.resolve targets := by
  have hcallee : s.resolveCallee = t.resolveCallee := by
    funext f
    unfold resolveCallee
    rw [hfunctions]
  unfold resolve resolveSite
  rw [hsites, hcallee]

/-- **Connecting does not read the limit and the count of the rounds**: it takes states whose
ledgers agree but for these to such states, and tells of both the same outcome. Both resolve the
names alike, so either both fail or both connect the same pairs. -/
theorem ledger_connect (h : s.ledger = t.ledger.under limit rounds) (hs : s.Registered)
    (ht : t.Registered) (targets : CallEdges) :
    (s.connect targets).1.ledger = (t.connect targets).1.ledger.under limit rounds ∧
      (s.connect targets).2 = (t.connect targets).2 := by
  have hresolve := resolve_congr (congrArg Ledger.sites h) (congrArg Ledger.functions h) targets
  rcases connect_cases hs targets with ⟨e, hse, hseq⟩ | ⟨pairs, hsp, hseq⟩ <;>
    rcases connect_cases ht targets with ⟨e', hte, hteq⟩ | ⟨pairs', htp, hteq⟩
  · rw [hseq, hteq]
    rw [hresolve, hte] at hse
    cases hse
    exact ⟨h, rfl⟩
  · rw [hresolve, htp] at hse
    cases hse
  · rw [hresolve, hte] at hsp
    cases hsp
  · obtain rfl : pairs = pairs' := by
      rw [hresolve, htp] at hsp
      cases hsp
      rfl
    obtain ⟨hledger, hconnected⟩ := ledger_connectPairs (r := { solver := s })
      (q := { solver := t }) h rfl (hs.sites_of_resolve hsp)
    rw [hseq, hteq]
    refine ⟨?_, ?_⟩
    · rw [ledger_closeRound, ledger_closeRound, hledger, hconnected]
      rfl
    · rw [hconnected]

end Solver

end PointsTo
