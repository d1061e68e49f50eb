import PointsTo.Settings.Basic
import PointsTo.Yaml.Decode

/-!
# Settings as texts

Settings are written as a YAML mapping, one setting a line. A text is read back from any YAML
mapping: settings that are missing take their usual values, other keys are skipped, and no setting
may stand twice. Settings that were read are checked afterwards.

## Main definitions

* `Settings.toText`: the text of settings
* `Settings.ofText`: the settings in a text
* `Settings.ofFile`: the settings in a file
-/

namespace PointsTo.Settings

/-! ## Writing -/

/-- A truth value in a text. -/
def boolText (b : Bool) : List Char := (if b then "true" else "false").toList

/-- A number that may be missing in a text. -/
def roundsText : Option Nat → List Char
  | none => "null".toList
  | some n => Nat.toDigits 10 n

/-- The values in their order. -/
def valueTexts (s : Settings) : List (List Char) :=
  [s.representativePolicy.name.toList, s.worklistOrder.name.toList,
    roundsText s.maxCallGraphRounds, boolText s.connectVarargs,
    boolText s.modelIndirectHeapAllocators]

/-- The line of one setting. -/
def line (name value : List Char) : List Char := name ++ ':' :: ' ' :: (value ++ ['\n'])

/-- **The text of settings**, one setting a line. -/
def toText (s : Settings) : String :=
  String.ofList (List.zipWith line (fieldNames.map String.toList) s.valueTexts).flatten

/-! ## Reading -/

/-- The entries of a mapping by name; every key has to be a scalar. -/
def namedEntries? (entries : List (Yaml.Content × Yaml.Content)) :
    Option (List (String × Yaml.Content)) :=
  entries.mapM fun (key, value) => key.text?.map (·, value)

/-- The value of a setting, unless it stands twice. -/
def setting? (entries : List (String × Yaml.Content)) (name : String) :
    Option (Option Yaml.Content) :=
  match entries.filter fun entry => entry.1 = name with
  | [] => some none
  | [(_, value)] => some (some value)
  | _ => none

/-- A setting that takes the given value when it is missing. -/
def defaulted {α : Type} (value : α) (read : Yaml.Content → Option α) :
    Option Yaml.Content → Option α
  | none => some value
  | some c => read c

/-- The settings of a mapping. -/
def ofEntries? (entries : List (Yaml.Content × Yaml.Content)) : Option Settings :=
  let usual : Settings := {}
  match (namedEntries? entries).bind fun entries => fieldNames.mapM (setting? entries) with
  | some [policy, order, rounds, varargs, heap] => do
    let representativePolicy ← defaulted usual.representativePolicy
      (Yaml.Content.choice? SurvivorPolicy.name SurvivorPolicy.all) policy
    let worklistOrder ← defaulted usual.worklistOrder
      (Yaml.Content.choice? WorklistOrder.name WorklistOrder.all) order
    let maxCallGraphRounds ← defaulted usual.maxCallGraphRounds
      (Yaml.Content.optional? Yaml.Content.count?) rounds
    let connectVarargs ← defaulted usual.connectVarargs Yaml.Content.bool? varargs
    let modelIndirectHeapAllocators ←
      defaulted usual.modelIndirectHeapAllocators Yaml.Content.bool? heap
    return { representativePolicy, worklistOrder, maxCallGraphRounds, connectVarargs,
             modelIndirectHeapAllocators }
  | _ => none

/-- The settings of a document. One that says nothing leaves all settings as usual. -/
def ofDocument? : Yaml.Document → Option Settings
  | .empty => some {}
  | .scalar s => if s.style = .plain ∧ s.text = [] then some {} else none
  | .sequence => none
  | .mapping entries => ofEntries? entries

/-- **The settings in a text**, checked. -/
def ofText (text : String) : Except SettingsError Settings :=
  match (Yaml.Document.ofText? text).bind ofDocument? with
  | none => .error .malformed
  | some s => s.validate.map fun _ => s

/-- **The settings in a file** with the given bytes, if there is one. -/
def ofFile (bytes : Option ByteArray) : Except SettingsError Settings :=
  match bytes with
  | none => .error .missingFile
  | some bytes =>
    match String.fromUTF8? bytes with
    | none => .error .undecodable
    | some text => ofText text

end PointsTo.Settings
