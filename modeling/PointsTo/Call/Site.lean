import PointsTo.Id

/-!
# Indirect call sites

A call site calls or forks through a function pointer. A call hands its arguments to the parameters
of the callee and takes its result; a fork starts the callee with its first argument alone.
-/

namespace PointsTo

/-- How a site uses its function pointer. -/
inductive CallSiteKind where
  /-- An ordinary call. -/
  | call
  /-- The start of a thread. -/
  | fork
deriving DecidableEq, Repr, Inhabited

/-- A call or fork through a function pointer. -/
structure CallSite where
  /-- The name of the site. -/
  id : SiteId
  /-- Call or fork. -/
  kind : CallSiteKind
  /-- The function pointer. -/
  funPtr : NodeId
  /-- The arguments. -/
  args : List NodeId
  /-- The node that takes the result. -/
  ret : Option NodeId := none
  /-- The line of the program. -/
  sourceLine : Option Nat := none
deriving DecidableEq, Repr

namespace CallSite

/-- Whether the site starts a thread. -/
def isFork (s : CallSite) : Bool := s.kind = .fork

/-- The argument that a fork hands over. -/
def forkArg (s : CallSite) : Option NodeId := if s.isFork then s.args.head? else none

/-- The nodes that the site names: pointer, arguments, result. -/
def nodes (s : CallSite) : List NodeId := s.funPtr :: s.args ++ s.ret.toList

end CallSite

/-- How far the callees of a site are known. -/
inductive CallSiteState where
  /-- No callee is known. -/
  | unresolved
  /-- The last round found a callee. -/
  | partiallyResolved
  /-- Callees are known, and the last round found no other. -/
  | stable
deriving DecidableEq, Repr, Inhabited

/-- The name of the state. -/
def CallSiteState.label : CallSiteState → String
  | .unresolved => "Unresolved"
  | .partiallyResolved => "PartiallyResolved"
  | .stable => "Stable"

end PointsTo
