import PointsTo.Id

/-!
# Nodes and constraints

A program is given as nodes and constraints between them. A value node is a pointer variable, an
object node a piece of memory; placeholder nodes of either sort are made during the analysis for
memory that an indirect call allocates.

A constraint has a source and a destination, in the direction in which pointers flow.

## Main definitions

* `NodeKind`: values and objects, given or made as placeholders
* `ConstraintKind`, `Constraint`: the five sorts of assignments
* `Constraint.addr`, `Constraint.copy`, `Constraint.load`, `Constraint.store`, `Constraint.gep`:
  the constraint of each assignment
-/

namespace PointsTo

/-- What a node stands for. -/
inductive NodeKind where
  /-- A pointer variable. -/
  | value
  /-- A piece of memory. -/
  | object
  /-- The value of an allocation that an indirect call makes. -/
  | dummyValue
  /-- The memory of an allocation that an indirect call makes. -/
  | dummyObject
deriving DecidableEq, Repr, Inhabited

namespace NodeKind

/-- The kind in capitals. -/
def label : NodeKind → String
  | value => "VALUE"
  | object => "OBJECT"
  | dummyValue => "DUMMY_VALUE"
  | dummyObject => "DUMMY_OBJECT"

/-- Whether the node stands for memory. -/
def isObject : NodeKind → Bool
  | object | dummyObject => true
  | value | dummyValue => false

/-- Whether the node was made during the analysis. -/
def isDummy : NodeKind → Bool
  | dummyValue | dummyObject => true
  | value | object => false

end NodeKind

/-- The sorts of assignments. -/
inductive ConstraintKind where
  /-- `p = &o`. -/
  | addr
  /-- `q = p`. -/
  | copy
  /-- `r = *p`. -/
  | load
  /-- `*p = q`. -/
  | store
  /-- `q = &p->f`. -/
  | gep
deriving DecidableEq, Repr, Inhabited

/-- The kind in capitals. -/
def ConstraintKind.label : ConstraintKind → String
  | .addr => "ADDR"
  | .copy => "COPY"
  | .load => "LOAD"
  | .store => "STORE"
  | .gep => "GEP"

/-- An assignment of the program: pointers flow from the source to the destination. -/
structure Constraint where
  /-- The sort of assignment. -/
  kind : ConstraintKind
  /-- Where pointers come from. -/
  src : NodeId
  /-- Where they go. -/
  dst : NodeId
  /-- The field of a field address. -/
  offset : Option Nat := none
  /-- The line of the program. -/
  sourceLine : Option Nat := none
deriving DecidableEq, Repr

namespace Constraint

/-- `pointer = &object`. -/
def addr (pointer object : NodeId) : Constraint := { kind := .addr, src := object, dst := pointer }

/-- `lhs = rhs`. -/
def copy (lhs rhs : NodeId) : Constraint := { kind := .copy, src := rhs, dst := lhs }

/-- `lhs = *pointer`. -/
def load (lhs pointer : NodeId) : Constraint := { kind := .load, src := pointer, dst := lhs }

/-- `*pointer = rhs`. -/
def store (pointer rhs : NodeId) : Constraint := { kind := .store, src := rhs, dst := pointer }

/-- `lhs = &base->field`. -/
def gep (lhs base : NodeId) (field : Nat) : Constraint :=
  { kind := .gep, src := base, dst := lhs, offset := some field }

/-- The constraint with the line it comes from. -/
def atLine (c : Constraint) (line : Nat) : Constraint := { c with sourceLine := some line }

/-- Whether the constraint reads or writes through a pointer. -/
def isComplex (c : Constraint) : Bool :=
  match c.kind with
  | .load | .store => true
  | .addr | .copy | .gep => false

end Constraint

/-- The sorts of analysis: equal pointers share one class. -/
inductive AnalysisKind where
  | steensgaard
deriving DecidableEq, Repr, Inhabited

namespace AnalysisKind

/-- The name in small letters. -/
def label : AnalysisKind → String
  | steensgaard => "steensgaard"

/-- Whether assignments unify the two sides. -/
def isUnificationBased : AnalysisKind → Bool
  | steensgaard => true

end AnalysisKind

end PointsTo
