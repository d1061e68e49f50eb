import PointsTo.Id
import PointsTo.Settings.Error

/-!
# Faults of an analysis

The causes for which an operation of the analysis is refused, with the message of each.
-/

namespace PointsTo

/-- Why an operation of the analysis is refused. -/
inductive AnalysisError where
  /-- No analysis is live. -/
  | notInitialized
  /-- A node that the constraint graph does not have. -/
  | unknownNode (node : NodeId)
  /-- A function that the table does not have. -/
  | unknownFunction (function : FunctionId)
  /-- A call site that is not registered. -/
  | unknownCallSite (site : SiteId)
  /-- Settings that are refused. -/
  | settings (cause : SettingsError)
deriving DecidableEq, Repr

namespace AnalysisError

/-- The cause in words. -/
def message : AnalysisError → String
  | notInitialized =>
    "Points-to analysis is not initialized (create it before querying, or it was released)"
  | unknownNode node => s!"Node {node} is not present in the constraint graph"
  | unknownFunction function => s!"Function {function} is not present in the function table"
  | unknownCallSite site => s!"Call site {site} is not registered with the analysis"
  | settings cause => s!"Configuration error: {cause.message}"

/-- Whether the cause is that no analysis is live. -/
def isNotInitialized : AnalysisError → Bool
  | notInitialized => true
  | _ => false

end AnalysisError

end PointsTo
