import PointsTo.Json.Decode
import PointsTo.Json.Reader
import PointsTo.Json.Writer
import PointsTo.Solver.State

/-!
# The records of the analysis in JSON

Each record is written as an object with its fields in order; a missing value is written as null.
Each is read back from the shapes that `Json.fields?` takes.

## Main definitions

For each record `R`: `R.toJson` and `R.ofJson?`.
-/

namespace PointsTo

/-! ## Choices -/

/-- The name of the kind in texts. -/
def NodeKind.name : NodeKind → String
  | value => "Value"
  | object => "Object"
  | dummyValue => "DummyValue"
  | dummyObject => "DummyObject"

def NodeKind.toJson (k : NodeKind) : Json := .ofString k.name

def NodeKind.ofJson? : Json → Option NodeKind :=
  Json.choice? name [value, object, dummyValue, dummyObject]

/-- The name of the kind in texts. -/
def ConstraintKind.name : ConstraintKind → String
  | addr => "Addr"
  | copy => "Copy"
  | load => "Load"
  | store => "Store"
  | gep => "Gep"

def ConstraintKind.toJson (k : ConstraintKind) : Json := .ofString k.name

def ConstraintKind.ofJson? : Json → Option ConstraintKind :=
  Json.choice? name [addr, copy, load, store, gep]

/-- The name of the kind in texts. -/
def CallSiteKind.name : CallSiteKind → String
  | call => "Call"
  | fork => "Fork"

def CallSiteKind.toJson (k : CallSiteKind) : Json := .ofString k.name

def CallSiteKind.ofJson? : Json → Option CallSiteKind := Json.choice? name [call, fork]

def CallSiteState.toJson (s : CallSiteState) : Json := .ofString s.label

def CallSiteState.ofJson? : Json → Option CallSiteState :=
  Json.choice? label [unresolved, partiallyResolved, stable]

/-- The name of the analysis in texts. -/
def AnalysisKind.name : AnalysisKind → String
  | steensgaard => "Steensgaard"

def AnalysisKind.toJson (k : AnalysisKind) : Json := .ofString k.name

def AnalysisKind.ofJson? : Json → Option AnalysisKind := Json.choice? name [steensgaard]

def Preset.toJson (p : Preset) : Json := .ofString p.name

def Preset.ofJson? : Json → Option Preset := Json.choice? name all

def SurvivorPolicy.toJson (p : SurvivorPolicy) : Json := .ofString p.name

def SurvivorPolicy.ofJson? : Json → Option SurvivorPolicy := Json.choice? name all

def WorklistOrder.toJson (o : WorklistOrder) : Json := .ofString o.name

def WorklistOrder.ofJson? : Json → Option WorklistOrder := Json.choice? name all

/-! ## Records -/

def Constraint.toJson (c : Constraint) : Json :=
  .ofMembers
    [("kind", c.kind.toJson), ("src", .ofNat c.src), ("dst", .ofNat c.dst),
      ("offset", .ofOption .ofNat c.offset), ("source_line", .ofOption .ofNat c.sourceLine)]

def Constraint.ofJson? (j : Json) : Option Constraint :=
  match j.fields? ["kind", "src", "dst", "offset", "source_line"] with
  | some [kind, src, dst, offset, sourceLine] => do
    let kind ← Json.required ConstraintKind.ofJson? kind
    let src ← Json.required Json.id? src
    let dst ← Json.required Json.id? dst
    let offset ← Json.optional Json.id? offset
    let sourceLine ← Json.optional Json.id? sourceLine
    return { kind, src, dst, offset, sourceLine }
  | _ => none

def CallSite.toJson (s : CallSite) : Json :=
  .ofMembers
    [("id", .ofNat s.id), ("kind", s.kind.toJson), ("fun_ptr", .ofNat s.funPtr),
      ("args", .ofNats s.args), ("ret", .ofOption .ofNat s.ret),
      ("source_line", .ofOption .ofNat s.sourceLine)]

def CallSite.ofJson? (j : Json) : Option CallSite :=
  match j.fields? ["id", "kind", "fun_ptr", "args", "ret", "source_line"] with
  | some [id, kind, funPtr, args, ret, sourceLine] => do
    let id ← Json.required Json.id? id
    let kind ← Json.required CallSiteKind.ofJson? kind
    let funPtr ← Json.required Json.id? funPtr
    let args ← Json.required Json.ids? args
    let ret ← Json.optional Json.id? ret
    let sourceLine ← Json.optional Json.id? sourceLine
    return { id, kind, funPtr, args, ret, sourceLine }
  | _ => none

def FunctionDecl.toJson (f : FunctionDecl) : Json :=
  .ofMembers
    [("id", .ofNat f.id), ("name", .ofString f.name), ("object", .ofNat f.object),
      ("formals", .ofNats f.formals), ("ret", .ofOption .ofNat f.ret),
      ("vararg", .ofOption .ofNat f.vararg), ("is_heap_allocator", .bool f.isHeapAllocator)]

def FunctionDecl.ofJson? (j : Json) : Option FunctionDecl :=
  match j.fields? ["id", "name", "object", "formals", "ret", "vararg", "is_heap_allocator"] with
  | some [id, name, object, formals, ret, vararg, isHeapAllocator] => do
    let id ← Json.required Json.id? id
    let name ← Json.required Json.text? name
    let object ← Json.required Json.id? object
    let formals ← Json.required Json.ids? formals
    let ret ← Json.optional Json.id? ret
    let vararg ← Json.optional Json.id? vararg
    let isHeapAllocator ← Json.required Json.bool? isHeapAllocator
    return { id, name, object, formals, ret, vararg, isHeapAllocator }
  | _ => none

def Allocation.toJson (a : Allocation) : Json :=
  .ofMembers [("value", .ofNat a.value), ("object", .ofNat a.object)]

def Allocation.ofJson? (j : Json) : Option Allocation :=
  match j.fields? ["value", "object"] with
  | some [value, object] => do
    let value ← Json.required Json.id? value
    let object ← Json.required Json.id? object
    return { value, object }
  | _ => none

def IdSet.toJson (s : IdSet) : Json := .ofMembers [("elements", .ofNats s.elements)]

/-- The elements are taken as they are listed. -/
def IdSet.ofJson? (j : Json) : Option IdSet :=
  match j.fields? ["elements"] with
  | some [elements] => do
    let elements ← Json.required Json.ids? elements
    return { elements }
  | _ => none

def Settings.toJson (s : Settings) : Json :=
  .ofMembers (Settings.fieldNames.zip
    [s.representativePolicy.toJson, s.worklistOrder.toJson, .ofOption .ofNat s.maxCallGraphRounds,
      .bool s.connectVarargs, .bool s.modelIndirectHeapAllocators])

/-- Settings that are missing take their usual values. -/
def Settings.ofJson? (j : Json) : Option Settings :=
  let usual : Settings := {}
  match j.leadingFields? Settings.fieldNames with
  | some [policy, order, rounds, varargs, heap] => do
    let representativePolicy ←
      Json.defaulted usual.representativePolicy SurvivorPolicy.ofJson? policy
    let worklistOrder ← Json.defaulted usual.worklistOrder WorklistOrder.ofJson? order
    let maxCallGraphRounds ← Json.optional Json.count? rounds
    let connectVarargs ← Json.defaulted usual.connectVarargs Json.bool? varargs
    let modelIndirectHeapAllocators ←
      Json.defaulted usual.modelIndirectHeapAllocators Json.bool? heap
    return { representativePolicy, worklistOrder, maxCallGraphRounds, connectVarargs,
             modelIndirectHeapAllocators }
  | _ => none

end PointsTo
