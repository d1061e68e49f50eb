/-!
# Identifiers

Nodes, call sites and functions are named by natural numbers. A node that stands for an allocated
object is named like any other node, so a points-to set is a set of node identifiers.

Texts from outside write an identifier as a number of 32 bits and a count as one of 64 bits;
`Id.bound` and `Count.bound` are the first numbers that no such text may name.

A natural number never wraps, but an identifier of 32 bits does. So results about graphs are about
graphs of at most `Id.bound` nodes, whose nodes all have identifiers of their own; a graph that
grows beyond that has no counterpart in such identifiers.
-/

namespace PointsTo

/-- The name of a node of the constraint graph. -/
abbrev NodeId := Nat

/-- The name of an indirect call site. -/
abbrev SiteId := Nat

/-- The name of a function. -/
abbrev FunctionId := Nat

/-- Identifiers in texts lie below this bound. -/
def Id.bound : Nat := 4294967296

/-- Counts in texts lie below this bound. -/
def Count.bound : Nat := 18446744073709551616

end PointsTo
