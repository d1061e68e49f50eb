/-!
# Faults of the settings

The causes for which settings are refused, with the message of each.
-/

namespace PointsTo

/-- Why settings are refused. -/
inductive SettingsError where
  /-- A number outside its range. -/
  | outOfRange (field value min max hint : String)
  /-- A name that no preset has. -/
  | unknownPreset (name : String)
  /-- A file that does not exist. -/
  | missingFile
  /-- A file that does not hold text. -/
  | undecodable
  /-- A text that does not describe settings. -/
  | malformed
deriving DecidableEq, Repr

/-- The cause in words. -/
def SettingsError.message : SettingsError → String
  | .outOfRange field value min max hint =>
    s!"Invalid range for field '{field}': {value} not in {min}..={max}. {hint}"
  | .unknownPreset name =>
    s!"Unknown preset '{name}'. Valid presets: fast, balanced, thorough, custom"
  | .missingFile => "IO error: No such file or directory (os error 2)"
  | .undecodable => "IO error: stream did not contain valid UTF-8"
  | .malformed => "YAML error"

end PointsTo
