import PointsTo.Partition
import PointsTo.Settings.Error
import PointsTo.Worklist

/-!
# Settings

What a user chooses about an analysis: which class survives a merge, which pending class is treated
next, how many rounds of call resolution are allowed, and which parts of an indirect call are
modelled. Presets name common choices.

## Main definitions

* `Settings`: the choices
* `Settings.validate`: the one rule that they have to keep
* `Preset`, `Settings.ofPreset`: named choices
* `Settings.describe`: the choices on one line
-/

namespace PointsTo

/-- The choices of an analysis. -/
structure Settings where
  /-- Which class survives a merge. -/
  representativePolicy : SurvivorPolicy := .copyTarget
  /-- Which pending class is treated next. -/
  worklistOrder : WorklistOrder := .fifo
  /-- How many rounds of call resolution are allowed; none means as many as it takes. -/
  maxCallGraphRounds : Option Nat := none
  /-- Whether arguments beyond the parameters flow into the variadic node. -/
  connectVarargs : Bool := true
  /-- Whether a call of an allocator through a pointer allocates memory of its own. -/
  modelIndirectHeapAllocators : Bool := true
deriving DecidableEq, Repr, Inhabited

/-- The greatest number of rounds that may be asked for. -/
def Settings.roundLimit : Nat := 10000

/-- **The rule that settings keep**: a limit on the rounds is from 1 to `roundLimit`. -/
def Settings.validate (s : Settings) : Except SettingsError Unit :=
  match s.maxCallGraphRounds with
  | none => .ok ()
  | some n =>
    if n = 0 ∨ roundLimit < n then
      .error (.outOfRange "max_call_graph_rounds" (toString n) "1" (toString roundLimit)
        "Use None to iterate until the call graph is stable")
    else .ok ()

/-- A named choice of settings. -/
inductive Preset where
  | fast
  | balanced
  | thorough
  | custom
deriving DecidableEq, Repr

namespace Preset

instance : Inhabited Preset := ⟨balanced⟩

/-- The name of the preset. -/
def name : Preset → String
  | fast => "fast"
  | balanced => "balanced"
  | thorough => "thorough"
  | custom => "custom"

/-- All presets. -/
def all : List Preset := [fast, balanced, thorough, custom]

/-- The preset of a name, in which small and capital letters count the same. -/
def ofName (s : String) : Except SettingsError Preset :=
  match all.find? fun p => p.name = s.map Char.toLower with
  | some p => .ok p
  | none => .error (.unknownPreset s)

end Preset

/-- The settings of a preset: the fast one settles for less, the others are alike. -/
def Settings.ofPreset : Preset → Settings
  | .fast =>
    { representativePolicy := .largerClass
      worklistOrder := .lifo
      maxCallGraphRounds := some 5
      connectVarargs := false
      modelIndirectHeapAllocators := false }
  | .balanced | .thorough | .custom => {}

/-! ## The names of the choices -/

/-- The name in settings texts. -/
def SurvivorPolicy.name : SurvivorPolicy → String
  | copyTarget => "copy_target"
  | lowerId => "lower_id"
  | largerClass => "larger_class"

/-- The name in descriptions. -/
def SurvivorPolicy.label : SurvivorPolicy → String
  | copyTarget => "CopyTarget"
  | lowerId => "LowerId"
  | largerClass => "LargerClass"

/-- All policies. -/
def SurvivorPolicy.all : List SurvivorPolicy := [copyTarget, lowerId, largerClass]

/-- The name in settings texts. -/
def WorklistOrder.name : WorklistOrder → String
  | fifo => "fifo"
  | lifo => "lifo"

/-- The name in descriptions. -/
def WorklistOrder.label : WorklistOrder → String
  | fifo => "Fifo"
  | lifo => "Lifo"

/-- All orders. -/
def WorklistOrder.all : List WorklistOrder := [fifo, lifo]

/-- The name in descriptions. -/
def Preset.label : Preset → String
  | fast => "Fast"
  | balanced => "Balanced"
  | thorough => "Thorough"
  | custom => "Custom"

/-- The names of the settings in texts, in their order. -/
def Settings.fieldNames : List String :=
  ["representative_policy", "worklist_order", "max_call_graph_rounds", "connect_varargs",
    "model_indirect_heap_allocators"]

/-- The settings on one line. -/
def Settings.describe (s : Settings) : String :=
  let rounds := match s.maxCallGraphRounds with
    | none => "None"
    | some n => s!"Some({n})"
  "PtaConfig \x7b representative_policy: " ++ s.representativePolicy.label
    ++ ", worklist_order: " ++ s.worklistOrder.label
    ++ ", max_call_graph_rounds: " ++ rounds
    ++ ", connect_varargs: " ++ toString s.connectVarargs
    ++ ", model_indirect_heap_allocators: " ++ toString s.modelIndirectHeapAllocators ++ " \x7d"

end PointsTo
