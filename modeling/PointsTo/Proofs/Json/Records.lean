import PointsTo.Proofs.Json.Decode

/-!
# Records that are read back

Every record of the analysis that is written without blanks is read as what it was, so long as its
identifiers have 32 bits and its counts 64 bits: names may hold any characters, lists may have any
length, and values may be missing. A record is written with one value for each of its fields, so it
is enough that each value can stand in a text and is read back by the reader of its field.

## Main definitions

* `Json.ReadsBack`: what is written of a value is read as the value
* `Constraint.Narrow`, `CallSite.Narrow`, `FunctionDecl.Narrow`, `Allocation.Narrow`: identifiers
  have 32 bits
* `Settings.Narrow`: the limit on the rounds has 64 bits

## Main results

* `ofJson?_toJson` of each record: the reader of a record undoes its writer
* `records_readBack`: all records are read back from their texts
-/

namespace PointsTo

namespace Json

/-- **What is written of a value**, without blanks, **is read as the value.** -/
def ReadsBack {α : Type} (write : α → Json) (read : Json → Option α) (a : α) : Prop :=
  (parse? (write a).compact).bind read = some a

theorem readsBack_of_formed {α : Type} {write : α → Json} {read : Json → Option α} {a : α}
    (hformed : (write a).Formed) (hread : read (write a) = some a) : ReadsBack write read a := by
  rw [ReadsBack, parse?_compact hformed, Option.bind_some, hread]

/-! ## Values of fields -/

theorem formed_ofOption {α : Type} {write : α → Json} (h : ∀ a, (write a).Formed) (v : Option α) :
    (ofOption write v).Formed := by
  cases v with
  | none => exact .null
  | some a => exact h a

theorem required_some {α : Type} {read : Json → Option α} {j : Json} {a : α}
    (h : read j = some a) : required read (some j) = some a := h

theorem required_ofNat {n : Nat} (h : n < Id.bound) : required id? (some (ofNat n)) = some n :=
  natBelow?_ofNat h

/-- A number that may be missing is read back. -/
theorem optional_ofOption_ofNat {bound : Nat} {v : Option Nat} (h : ∀ n ∈ v, n < bound) :
    optional (natBelow? bound) (some (ofOption ofNat v)) = some v :=
  optional_ofOption fun n hn => ⟨by simp [ofNat], natBelow?_ofNat (h n hn)⟩

theorem optional_id? {v : Option Nat} (h : ∀ n ∈ v, n < Id.bound) :
    optional id? (some (ofOption ofNat v)) = some v :=
  optional_ofOption_ofNat h

theorem defaulted_some {α : Type} {read : Json → Option α} {j : Json} {a value : α}
    (h : read j = some a) : defaulted value read (some j) = some a := h

end Json

open Json

/-! ## Constraints -/

theorem ConstraintKind.ofJson?_toJson (k : ConstraintKind) :
    ConstraintKind.ofJson? k.toJson = some k :=
  choice?_ofString (by cases k <;> decide) (by cases k <;> decide)

namespace Constraint

variable {c : Constraint}

/-- The numbers of the constraint have 32 bits. -/
structure Narrow (c : Constraint) : Prop where
  src : c.src < Id.bound
  dst : c.dst < Id.bound
  offset : ∀ n ∈ c.offset, n < Id.bound
  sourceLine : ∀ n ∈ c.sourceLine, n < Id.bound

theorem formed_toJson (c : Constraint) : c.toJson.Formed := by
  refine formed_ofMembers ?_
  simp [ConstraintKind.toJson, formed_ofString, formed_ofNat, formed_ofOption]

theorem ofJson?_toJson (h : c.Narrow) : ofJson? c.toJson = some c := by
  have hfields : c.toJson.fields? ["kind", "src", "dst", "offset", "source_line"] = some
      [some c.kind.toJson, some (.ofNat c.src), some (.ofNat c.dst),
        some (.ofOption .ofNat c.offset), some (.ofOption .ofNat c.sourceLine)] :=
    fields?_ofMembers (by decide) rfl
  rw [ofJson?, hfields]
  simp only [required_some (ConstraintKind.ofJson?_toJson c.kind), required_ofNat h.src,
    required_ofNat h.dst, optional_id? h.offset, optional_id? h.sourceLine]
  rfl

end Constraint

/-! ## Calls and functions -/

theorem CallSiteKind.ofJson?_toJson (k : CallSiteKind) : CallSiteKind.ofJson? k.toJson = some k :=
  choice?_ofString (by cases k <;> decide) (by cases k <;> decide)

namespace CallSite

variable {s : CallSite}

/-- The numbers of the site have 32 bits. -/
structure Narrow (s : CallSite) : Prop where
  id : s.id < Id.bound
  funPtr : s.funPtr < Id.bound
  args : ∀ n ∈ s.args, n < Id.bound
  ret : ∀ n ∈ s.ret, n < Id.bound
  sourceLine : ∀ n ∈ s.sourceLine, n < Id.bound

theorem formed_toJson (s : CallSite) : s.toJson.Formed := by
  refine formed_ofMembers ?_
  simp [CallSiteKind.toJson, formed_ofString, formed_ofNat, formed_ofNats, formed_ofOption]

theorem ofJson?_toJson (h : s.Narrow) : ofJson? s.toJson = some s := by
  have hfields : s.toJson.fields? ["id", "kind", "fun_ptr", "args", "ret", "source_line"] = some
      [some (.ofNat s.id), some s.kind.toJson, some (.ofNat s.funPtr), some (.ofNats s.args),
        some (.ofOption .ofNat s.ret), some (.ofOption .ofNat s.sourceLine)] :=
    fields?_ofMembers (by decide) rfl
  rw [ofJson?, hfields]
  simp only [required_ofNat h.id, required_some (CallSiteKind.ofJson?_toJson s.kind),
    required_ofNat h.funPtr, required_some (ids?_ofNats h.args), optional_id? h.ret,
    optional_id? h.sourceLine]
  rfl

end CallSite

namespace FunctionDecl

variable {f : FunctionDecl}

/-- The numbers of the function have 32 bits. -/
structure Narrow (f : FunctionDecl) : Prop where
  id : f.id < Id.bound
  object : f.object < Id.bound
  formals : ∀ n ∈ f.formals, n < Id.bound
  ret : ∀ n ∈ f.ret, n < Id.bound
  vararg : ∀ n ∈ f.vararg, n < Id.bound

theorem formed_toJson (f : FunctionDecl) : f.toJson.Formed := by
  refine formed_ofMembers ?_
  simp [formed_ofString, formed_ofNat, formed_ofNats, formed_ofOption, Formed.bool]

theorem ofJson?_toJson (h : f.Narrow) : ofJson? f.toJson = some f := by
  have hfields : f.toJson.fields?
      ["id", "name", "object", "formals", "ret", "vararg", "is_heap_allocator"] = some
      [some (.ofNat f.id), some (.ofString f.name), some (.ofNat f.object),
        some (.ofNats f.formals), some (.ofOption .ofNat f.ret),
        some (.ofOption .ofNat f.vararg), some (.bool f.isHeapAllocator)] :=
    fields?_ofMembers (by decide) rfl
  have hname : (Json.ofString f.name).text? = some f.name := unescape?_escape f.name
  have hheap : (Json.bool f.isHeapAllocator).bool? = some f.isHeapAllocator := rfl
  rw [ofJson?, hfields]
  simp only [required_ofNat h.id, required_some hname, required_ofNat h.object,
    required_some (ids?_ofNats h.formals), optional_id? h.ret, optional_id? h.vararg,
    required_some hheap]
  rfl

end FunctionDecl

namespace Allocation

variable {a : Allocation}

/-- The nodes of the allocation have 32 bits. -/
structure Narrow (a : Allocation) : Prop where
  value : a.value < Id.bound
  object : a.object < Id.bound

theorem formed_toJson (a : Allocation) : a.toJson.Formed := by
  refine formed_ofMembers ?_
  simp [formed_ofNat]

theorem ofJson?_toJson (h : a.Narrow) : ofJson? a.toJson = some a := by
  have hfields : a.toJson.fields? ["value", "object"] =
      some [some (.ofNat a.value), some (.ofNat a.object)] :=
    fields?_ofMembers (by decide) rfl
  rw [ofJson?, hfields]
  simp only [required_ofNat h.value, required_ofNat h.object]
  rfl

end Allocation

/-! ## Settings -/

theorem SurvivorPolicy.ofJson?_toJson (p : SurvivorPolicy) :
    SurvivorPolicy.ofJson? p.toJson = some p :=
  choice?_ofString (by cases p <;> decide) (by cases p <;> decide)

theorem WorklistOrder.ofJson?_toJson (o : WorklistOrder) :
    WorklistOrder.ofJson? o.toJson = some o :=
  choice?_ofString (by cases o <;> decide) (by cases o <;> decide)

namespace Settings

variable {s : Settings}

/-- The limit on the rounds has 64 bits. -/
def Narrow (s : Settings) : Prop := ∀ n ∈ s.maxCallGraphRounds, n < Count.bound

theorem formed_toJson (s : Settings) : s.toJson.Formed := by
  refine formed_ofMembers_zip fieldNames ?_
  simp [SurvivorPolicy.toJson, WorklistOrder.toJson, formed_ofString, formed_ofNat,
    formed_ofOption, Formed.bool]

/-- No setting is missing, so none takes its usual value. -/
theorem ofJson?_toJson (h : s.Narrow) : ofJson? s.toJson = some s := by
  have hfields : s.toJson.fields? fieldNames = some
      [some s.representativePolicy.toJson, some s.worklistOrder.toJson,
        some (.ofOption .ofNat s.maxCallGraphRounds), some (.bool s.connectVarargs),
        some (.bool s.modelIndirectHeapAllocators)] :=
    fields?_ofMembers (by decide) rfl
  have hleading : s.toJson.leadingFields? fieldNames = s.toJson.fields? fieldNames := rfl
  have hrounds : optional count? (some (.ofOption .ofNat s.maxCallGraphRounds)) =
      some s.maxCallGraphRounds := optional_ofOption_ofNat h
  have hbool : ∀ b, (Json.bool b).bool? = some b := fun _ => rfl
  rw [ofJson?, hleading, hfields]
  simp only [defaulted_some (SurvivorPolicy.ofJson?_toJson s.representativePolicy),
    defaulted_some (WorklistOrder.ofJson?_toJson s.worklistOrder), hrounds,
    defaulted_some (hbool s.connectVarargs), defaulted_some (hbool s.modelIndirectHeapAllocators)]
  rfl

end Settings

/-! ## All records -/

/-- **All records are read back from their texts.** -/
theorem records_readBack :
    (∀ c : Constraint, c.Narrow → ReadsBack Constraint.toJson Constraint.ofJson? c) ∧
      (∀ s : CallSite, s.Narrow → ReadsBack CallSite.toJson CallSite.ofJson? s) ∧
      (∀ f : FunctionDecl, f.Narrow → ReadsBack FunctionDecl.toJson FunctionDecl.ofJson? f) ∧
      (∀ a : Allocation, a.Narrow → ReadsBack Allocation.toJson Allocation.ofJson? a) ∧
      (∀ s : Settings, s.Narrow → ReadsBack Settings.toJson Settings.ofJson? s) ∧
      ∀ s : IdSet, (∀ x ∈ s, x < Id.bound) → ReadsBack IdSet.toJson IdSet.ofJson? s :=
  ⟨fun c h => readsBack_of_formed c.formed_toJson (Constraint.ofJson?_toJson h),
    fun s h => readsBack_of_formed s.formed_toJson (CallSite.ofJson?_toJson h),
    fun f h => readsBack_of_formed f.formed_toJson (FunctionDecl.ofJson?_toJson h),
    fun a h => readsBack_of_formed a.formed_toJson (Allocation.ofJson?_toJson h),
    fun s h => readsBack_of_formed s.formed_toJson (Settings.ofJson?_toJson h),
    fun s h => readsBack_of_formed s.formed_toJson (IdSet.ofJson?_toJson h)⟩

/-- A name that needs every kind of escape, and the greatest numbers. -/
theorem records_readBack_greatest :
    ReadsBack FunctionDecl.toJson FunctionDecl.ofJson?
        { id := 4294967295, name := "\"\\/\n\u0001\u007f😀", object := 0,
          formals := [4294967295, 0, 4294967295], ret := some 4294967295,
          isHeapAllocator := true } ∧
      ReadsBack Settings.toJson Settings.ofJson?
        { maxCallGraphRounds := some 18446744073709551615 } := by
  obtain ⟨-, -, hfunction, -, hsettings, -⟩ := records_readBack
  exact ⟨hfunction _ ⟨by decide, by decide, by decide, by decide, by decide⟩,
    hsettings _ (by simp [Settings.Narrow, Count.bound])⟩

end PointsTo
