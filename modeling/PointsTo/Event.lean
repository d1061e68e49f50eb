import PointsTo.Call.Site

/-!
# Events

What the analysis reports while it runs. An event is a value; its level, its message and its fields
are functions of it, so the analysis itself writes nothing.

## Main definitions

* `Event`: the things that are reported
* `Event.level`, `Event.message`, `Event.fields`: how an event reads
* `Level.admits`: which events a listener at a level hears
-/

namespace PointsTo

/-- How urgent an event is. -/
inductive Level where
  | error
  | warn
  | info
  | debug
  | trace
deriving DecidableEq, Repr

namespace Level

/-- The level as a number, the most urgent one being zero. -/
def rank : Level → Nat
  | error => 0
  | warn => 1
  | info => 2
  | debug => 3
  | trace => 4

/-- The level in capitals. -/
def label : Level → String
  | error => "ERROR"
  | warn => "WARN"
  | info => "INFO"
  | debug => "DEBUG"
  | trace => "TRACE"

/-- The level of a name in capitals. -/
def ofLabel? (s : String) : Option Level :=
  [error, warn, info, debug, trace].find? fun l => l.label = s

/-- Whether a listener at `limit` hears an event at `l`. -/
def admits (limit l : Level) : Bool := l.rank ≤ limit.rank

end Level

/-- A thing that is reported. -/
inductive Event where
  /-- An analysis starts. -/
  | analysisStarted (nodes sites functions : Nat)
  /-- A round of the analysis starts to drain the worklist. -/
  | roundStarted (round : Nat)
  /-- The rounds allowed are used up. -/
  | roundLimitReached (limit : Nat)
  /-- An analysis ends. -/
  | analysisFinished (classes merges rounds callEdges : Nat)
  /-- One class absorbed another. -/
  | classesMerged (lost survivor : NodeId)
  /-- A callee is connected to a site. -/
  | targetConnected (site : SiteId) (callee : String) (fork : Bool)
  /-- A call passes fewer arguments than the callee has parameters. -/
  | argumentsMissing (site : SiteId) (callee : String) (actuals formals : Nat)
  /-- Arguments beyond the parameters are left alone, as the settings ask. -/
  | varargIgnored (site : SiteId) (callee : String)
  /-- A call passes more arguments than the callee takes. -/
  | argumentsSurplus (site : SiteId) (callee : String) (surplus : Nat)
  /-- A fork passes no argument. -/
  | forkWithoutArgument (site : SiteId) (callee : String)
  /-- A forked function has no parameter. -/
  | forkWithoutParameter (site : SiteId) (callee : String)
  /-- Memory is allocated at a site. -/
  | allocationCreated (site : SiteId) (value object : NodeId)
  /-- The state of a site changes. -/
  | siteStateChanged (site : SiteId) (prev next : CallSiteState)
  /-- A session creates an analysis. -/
  | instanceCreated (generation : Nat)
  /-- A session releases its analysis. -/
  | instanceReleased (generation : Nat)
deriving DecidableEq, Repr

/-- The value of a field of an event. -/
inductive EventField where
  | number (n : Nat)
  | flag (b : Bool)
  | text (s : String)
deriving DecidableEq, Repr

namespace Event

/-- How urgent the event is. -/
def level : Event → Level
  | analysisStarted .. | analysisFinished .. | instanceCreated .. => .info
  | roundLimitReached .. | argumentsMissing .. | argumentsSurplus .. | forkWithoutParameter .. =>
    .warn
  | roundStarted .. | targetConnected .. | varargIgnored .. | forkWithoutArgument ..
  | allocationCreated .. | instanceReleased .. => .debug
  | classesMerged .. | siteStateChanged .. => .trace

/-- The event in words. -/
def message : Event → String
  | analysisStarted .. => "Starting Steensgaard analysis"
  | roundStarted .. => "Solving worklist"
  | roundLimitReached .. => "Call graph round limit reached; result may miss indirect targets"
  | analysisFinished .. => "Steensgaard analysis finished"
  | classesMerged .. => "Merged equivalence classes"
  | targetConnected .. => "Connecting indirect target"
  | argumentsMissing .. => "Not enough args for indirect call"
  | varargIgnored .. => "Vararg connection disabled"
  | argumentsSurplus .. => "Too many args to non-vararg function"
  | forkWithoutArgument .. => "Fork site passes no argument"
  | forkWithoutParameter .. => "Forked function takes no parameter"
  | allocationCreated .. => "Created dummy heap object"
  | siteStateChanged .. => "Call site state changed"
  | instanceCreated .. => "Created points-to analysis instance"
  | instanceReleased .. => "Released points-to analysis instance"

/-- The particulars of the event, by name. -/
def fields : Event → List (String × EventField)
  | analysisStarted nodes sites functions =>
    [("nodes", .number nodes), ("call_sites", .number sites), ("functions", .number functions)]
  | roundStarted round => [("round", .number round)]
  | roundLimitReached limit => [("max_rounds", .number limit)]
  | analysisFinished classes merges rounds callEdges =>
    [("classes", .number classes), ("merges", .number merges),
      ("call_graph_rounds", .number rounds), ("indirect_call_edges", .number callEdges)]
  | classesMerged lost survivor => [("lost", .number lost), ("survivor", .number survivor)]
  | targetConnected site callee fork =>
    [("site", .number site), ("callee", .text callee), ("fork", .flag fork)]
  | argumentsMissing site callee actuals formals =>
    [("site", .number site), ("callee", .text callee), ("actuals", .number actuals),
      ("formals", .number formals)]
  | varargIgnored site callee => [("site", .number site), ("callee", .text callee)]
  | argumentsSurplus site callee surplus =>
    [("site", .number site), ("callee", .text callee), ("surplus", .number surplus)]
  | forkWithoutArgument site callee => [("site", .number site), ("callee", .text callee)]
  | forkWithoutParameter site callee => [("site", .number site), ("callee", .text callee)]
  | allocationCreated site value object =>
    [("site", .number site), ("value", .number value), ("object", .number object)]
  | siteStateChanged site prev next =>
    [("site", .number site), ("prev", .text prev.label), ("next", .text next.label)]
  | instanceCreated generation => [("generation", .number generation)]
  | instanceReleased generation => [("generation", .number generation)]

end Event

end PointsTo
