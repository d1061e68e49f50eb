import PointsTo.Snapshot.Basic
import PointsTo.Solver.Analyze

/-!
# Sessions

A session holds at most one live analysis. Asking for one builds it only if none is live; each new
analysis gets the next number, its generation. Every question to a session without a live analysis
is refused.

## Main definitions

* `Session`: the live analysis, if any, and the number of analyses made
* `Session.obtainM`, `Session.obtain`: making sure that an analysis is live, with a builder that has
  effects and with one that has none
* `Session.release`: dropping the live analysis
* `Session.get`, `Session.modify`: reaching it
* `Session.analyze`, `Session.pointsTo`, `Session.representative`, `Session.classMembers`,
  `Session.freeze`: the questions
-/

namespace PointsTo

/-- The analysis under the given number. -/
def Analysis.numbered {σ : Type} (a : Analysis σ) (n : Nat) : Analysis σ :=
  { a with solver := { a.solver with generation := n } }

/-- At most one live analysis, and the number of analyses made. -/
structure Session (σ : Type) where
  /-- The live analysis. -/
  live : Option (Analysis σ) := none
  /-- The number of analyses made so far. -/
  created : Nat := 0
  /-- What the session itself reported, newest first. -/
  journal : List Event := []

namespace Session

variable {σ : Type}

/-- Whether an analysis is live. -/
def isLive (s : Session σ) : Bool := s.live.isSome

/-- **The live analysis.** -/
def get (s : Session σ) : Except AnalysisError (Analysis σ) :=
  match s.live with
  | none => .error .notInitialized
  | some a => .ok a

/-- Makes a built analysis the live one and gives it the next generation. -/
def install (s : Session σ) (a : Analysis σ) : Session σ where
  live := some (a.numbered (s.created + 1))
  created := s.created + 1
  journal := .instanceCreated (s.created + 1) :: s.journal

/-- The session and the answer, given what a builder returned. A builder that fails leaves the
session as it is. -/
def settle (s : Session σ) :
    Except AnalysisError (Analysis σ) → Session σ × Except AnalysisError (Analysis σ)
  | .error e => (s, .error e)
  | .ok a => (s.install a, (s.install a).get)

/-- **Makes sure that an analysis is live**, building one only if none is. The builder may have
effects of its own; they show whether it was called. -/
def obtainM {m : Type → Type} [Monad m] (s : Session σ)
    (build : Unit → m (Except AnalysisError (Analysis σ))) :
    m (Session σ × Except AnalysisError (Analysis σ)) :=
  match s.live with
  | some a => pure (s, .ok a)
  | none => s.settle <$> build ()

/-- **Makes sure that an analysis is live**, with a builder that has no effects. -/
def obtain (s : Session σ) (build : Unit → Except AnalysisError (Analysis σ)) :
    Session σ × Except AnalysisError (Analysis σ) :=
  Id.run (s.obtainM build)

/-- **Drops the live analysis**; tells whether there was one. -/
def release (s : Session σ) : Session σ × Bool :=
  match s.live with
  | none => (s, false)
  | some a =>
    ({ s with
        live := none
        journal := .instanceReleased a.solver.generation :: a.solver.journal ++ s.journal }, true)

/-- Applies an operation to the live analysis. -/
def modify {α : Type} (s : Session σ)
    (f : Analysis σ → Analysis σ × Except AnalysisError α) : Session σ × Except AnalysisError α :=
  match s.live with
  | none => (s, .error .notInitialized)
  | some a =>
    let (a, outcome) := f a
    ({ s with live := some a }, outcome)

/-- The generation of the live analysis. -/
def generation (s : Session σ) : Except AnalysisError Nat :=
  s.get.map fun a => a.solver.generation

/-- Runs the live analysis. -/
def analyze (s : Session σ) : Session σ × Except AnalysisError Unit := s.modify Analysis.run

/-- The points-to set of a node. -/
def pointsTo (s : Session σ) (n : NodeId) : Except AnalysisError IdSet :=
  s.get.map fun a => a.solver.pointsTo n

/-- The representative of a node. -/
def representative (s : Session σ) (n : NodeId) : Except AnalysisError NodeId :=
  s.get.map fun a => a.solver.representative n

/-- The members of the class of a node. -/
def classMembers (s : Session σ) (n : NodeId) : Except AnalysisError IdSet :=
  s.get.map fun a => a.solver.classMembers n

/-- The snapshot of the live analysis. -/
def freeze (s : Session σ) : Except AnalysisError Snapshot := s.get.map fun a => a.solver.freeze

/-- What session and live analysis reported since the last call, in order. -/
def takeReports (s : Session σ) : List Event × Session σ :=
  match s.live with
  | none => (s.journal.reverse, { s with journal := [] })
  | some a =>
    let (reports, solver) := a.solver.takeReports
    (s.journal.reverse ++ reports, { s with live := some { a with solver }, journal := [] })

end Session

end PointsTo
