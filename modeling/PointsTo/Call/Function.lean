import PointsTo.Id
import Std.Data.ExtTreeMap

/-!
# Functions and their table

A function has an object node, by which pointers to it are known. The table finds a function by its
name and, when resolving a call, by its object.

## Main definitions

* `FunctionDecl`: parameters, result and object of a function
* `FunctionTable`: functions by name and by object
* `FunctionTable.insert`: adding or replacing a function
* `FunctionTable.forObject?`: the function that an object stands for
-/

namespace PointsTo

/-- A function that pointers may point to. -/
structure FunctionDecl where
  /-- The name used by call graphs. -/
  id : FunctionId
  /-- The name used in messages. -/
  name : String
  /-- The node that stands for the function in points-to sets. -/
  object : NodeId
  /-- The parameters. -/
  formals : List NodeId := []
  /-- The node that holds the result. -/
  ret : Option NodeId := none
  /-- The node that takes the arguments beyond the parameters. -/
  vararg : Option NodeId := none
  /-- Whether each call allocates memory. -/
  isHeapAllocator : Bool := false
deriving DecidableEq, Repr

namespace FunctionDecl

/-- Whether arguments beyond the parameters are taken. -/
def isVariadic (f : FunctionDecl) : Bool := f.vararg.isSome

/-- The parameter that a fork fills. -/
def forkEntry (f : FunctionDecl) : Option NodeId := f.formals.head?

/-- The nodes that the function names: object, parameters, result, variadic node. -/
def nodes (f : FunctionDecl) : List NodeId :=
  f.object :: f.formals ++ f.ret.toList ++ f.vararg.toList

end FunctionDecl

/-- The functions of the program, found by name and by object. -/
structure FunctionTable where
  /-- The functions by name. -/
  functions : Std.ExtTreeMap FunctionId FunctionDecl := ∅
  /-- The function that each object stands for. -/
  byObject : Std.ExtTreeMap NodeId FunctionId := ∅

namespace FunctionTable

/-- The table without functions. -/
def empty : FunctionTable := {}

instance : EmptyCollection FunctionTable := ⟨empty⟩

/-- The function of a name. -/
def get? (t : FunctionTable) (f : FunctionId) : Option FunctionDecl := t.functions[f]?

/-- **The function that an object stands for.** -/
def forObject? (t : FunctionTable) (o : NodeId) : Option FunctionDecl := t.byObject[o]?.bind t.get?

/-- Adds `f`, in the place of a function of the same name. The object of the replaced function
stands for no function any more, and the object of `f` stands for `f`, whatever they stood for
before. -/
def insert (t : FunctionTable) (f : FunctionDecl) : FunctionTable where
  functions := t.functions.insert f.id f
  byObject :=
    let kept := match t.get? f.id with
      | some replaced => t.byObject.erase replaced.object
      | none => t.byObject
    kept.insert f.object f.id

/-- The table of the given functions, inserted in order. -/
def ofList (fs : List FunctionDecl) : FunctionTable := fs.foldl insert empty

/-- The functions in the order of their names. -/
def toList (t : FunctionTable) : List FunctionDecl := t.functions.values

/-- The number of functions. -/
def size (t : FunctionTable) : Nat := t.functions.size

/-- Whether there is no function. -/
def isEmpty (t : FunctionTable) : Bool := t.functions.isEmpty

end FunctionTable

end PointsTo
