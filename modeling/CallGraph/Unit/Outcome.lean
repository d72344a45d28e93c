import CallGraph.Unit.Execution

/-!
# Outcomes

A unit is executed or linted, and the `Outcome` is what comes of it.

* `Report` — what linting finds;
* `processText` — reads a text and processes the unit that it describes, whatever processing means.
-/

namespace CallGraph

/-- The outcome of linting. -/
structure Report where
  /-- The findings by position; those without a position come last. -/
  diagnostics : List Diagnostic
  /-- The graph in DOT, for a unit that is not a payload. -/
  dot : String
deriving DecidableEq

namespace Report

/-- The number of errors. -/
def errorCount (r : Report) : Nat := (Diagnostic.errors r.diagnostics).length

/-- The number of warnings. -/
def warningCount (r : Report) : Nat := r.diagnostics.length - r.errorCount

/-- Whether there are errors. -/
def hasErrors (r : Report) : Bool := 0 < r.errorCount

end Report

/-- What came out of processing a unit. -/
inductive Outcome where
  /-- It was executed. -/
  | executed (execution : Execution)
  /-- It was linted. -/
  | linted (report : Report)
deriving DecidableEq

/-- What was logged. -/
def Outcome.logs : Outcome → List (LogLevel × String)
  | executed execution => execution.logs
  | linted _ => []

/-- Why processing fails. -/
inductive ProcessingError where
  /-- The text is refused. -/
  | unreadable (error : SyntaxError)
  /-- The unit is not executed to its end. -/
  | execution (error : ExecutionError)
deriving DecidableEq

/-- Reads a text and processes the unit that it describes.  The findings made while reading are left
in the draft if the text is refused, and are handed over with the graph otherwise. -/
def processText (processing : SourceUnit → Except ExecutionError Outcome) (budget : Nat)
    (scope : Scope) (text : String) : Except ProcessingError Outcome × Draft :=
  match Draft.ofText budget scope text with
  | (draft, .error error) => (.error (.unreadable error), draft)
  | (draft, .ok ()) =>
    ((processing draft.toUnit).mapError .execution, { draft with graph := {}, diagnostics := [] })

end CallGraph
