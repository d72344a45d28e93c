import CallGraph.Service.Failure

/-!
# Reportables

A failure is shown to the user as a list of `Reportable`s.  A refused source gives one with its
position, a rejected unit one for each error; any other failure has no position in the source.
-/

namespace CallGraph

/-- Something to show to the user. -/
structure Reportable where
  /-- What happened, in one sentence. -/
  message : String
  /-- The code under which it is listed. -/
  code : Option String := none
  /-- How bad it is, if that was judged. -/
  severity : Option Severity := none
  /-- How to mend it. -/
  help : Option String := none
  /-- The spans singled out, none if it has no position. -/
  labels : List Label := []
deriving DecidableEq

/-- A finding to show. -/
def Reportable.ofDiagnostic (d : Diagnostic) : Reportable where
  message := d.message
  code := d.code.map Code.id
  severity := some d.severity
  help := d.help
  labels := d.labels

namespace Failure

/-- The code of a failure without a position. -/
def reportCode : Failure → Option String
  | file _ => some "fidi::io"
  | unreadable _ _ => none
  | execution _ => some "fidi::execution"
  | timeout _ => some "fidi::timeout"
  | lost _ => some "fidi::task"

/-- How to mend a failure without a position. -/
def reportHelp : Failure → Option String
  | execution (.cycle _) =>
    some "set `allow_cycles = true` in the `[app]` section to execute anyway"
  | _ => none

/-- What to show to the user. -/
def reportables : Failure → List Reportable
  | unreadable error _ => [.ofDiagnostic error.toDiagnostic]
  | execution (.rejected errors) => errors.map .ofDiagnostic
  | failure =>
    [{ message := failure.message, code := failure.reportCode, help := failure.reportHelp }]

end Failure

end CallGraph
