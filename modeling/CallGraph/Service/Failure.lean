import CallGraph.Unit.Session

/-!
# Failures

A `Failure` is the reason why a request is not answered as asked: a file cannot be read or written,
a text is refused, a unit is not executed to its end, or it does not finish in time.
-/

namespace CallGraph

/-- Why a request fails. -/
inductive Failure where
  /-- A file cannot be read or written. -/
  | file (reason : String)
  /-- The source is refused. -/
  | unreadable (error : SyntaxError) (source : String)
  /-- The unit is not executed to its end. -/
  | execution (error : ExecutionError)
  /-- The unit does not finish within so many milliseconds. -/
  | timeout (limit : Nat)
  /-- A scheduled unit is lost. -/
  | lost (reason : String)
deriving DecidableEq

namespace Failure

/-- The failure in one sentence. -/
def message : Failure → String
  | file reason => "I/O error: " ++ reason
  | unreadable error _ => error.display
  | execution error => error.message
  | timeout limit => "unit did not finish within " ++ toString limit ++ " ms"
  | lost reason => "scheduled unit did not complete: " ++ reason

/-- The failure to process a source. -/
def ofProcessing (source : String) : ProcessingError → Failure
  | .unreadable error => unreadable error source
  | .execution error => execution error

end Failure

/-- Reads and processes a source on its own. -/
def processSource (c : Configuration) (mode : Mode) (source : String) : Except Failure Outcome :=
  ((Session.ofMode mode c).run source).1.mapError (Failure.ofProcessing source)

end CallGraph
