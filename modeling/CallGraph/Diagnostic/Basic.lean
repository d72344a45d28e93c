import CallGraph.Diagnostic.Code
import CallGraph.Source.Span

/-!
# Diagnostics

A `Diagnostic` is one finding about a unit: how bad it is, what it is about, a message, the spans
that it singles out, and perhaps some help.  The first primary label places it in the source.
-/

namespace CallGraph

/-- How bad a finding is. -/
inductive Severity where
  /-- The unit cannot be executed. -/
  | error
  /-- The unit can be executed all the same. -/
  | warning
deriving DecidableEq

namespace Severity

/-- The severity in one word. -/
def name : Severity → String
  | error => "error"
  | warning => "warning"

end Severity

/-- What a label contributes to its diagnostic. -/
inductive LabelRole where
  /-- The text at fault. -/
  | primary
  /-- Other text that explains the fault. -/
  | secondary
deriving DecidableEq

/-- A message pinned to a span. -/
structure Label where
  /-- The span singled out. -/
  span : Span
  /-- What there is to say about it. -/
  message : String
  /-- Whether the span is at fault or explains the fault. -/
  role : LabelRole
deriving DecidableEq

namespace Label

/-- A label on the text at fault. -/
def primary (span : Span) (message : String) : Label := ⟨span, message, .primary⟩

/-- A label on text that explains the fault. -/
def secondary (span : Span) (message : String) : Label := ⟨span, message, .secondary⟩

/-- Whether the label marks the text at fault. -/
def isPrimary (label : Label) : Bool := label.role = .primary

/-- The label on one line: where and what. -/
def display (label : Label) : String :=
  label.span.location.display ++ ": " ++ label.message

end Label

/-- One finding about a unit. -/
structure Diagnostic where
  /-- How bad the finding is. -/
  severity : Severity
  /-- What the finding is about. -/
  code : Option Code := none
  /-- The finding in one sentence. -/
  message : String
  /-- The spans singled out, in the order of their mention. -/
  labels : List Label := []
  /-- How to mend it. -/
  help : Option String := none
deriving DecidableEq

namespace Diagnostic

/-- Whether the finding keeps the unit from being executed. -/
def isError (d : Diagnostic) : Bool := d.severity = .error

/-- The span of the first primary label. -/
def span? (d : Diagnostic) : Option Span :=
  (d.labels.find? Label.isPrimary).map Label.span

/-- The finding on one line: severity, code and message. -/
def display (d : Diagnostic) : String :=
  let code := match d.code with
    | some code => "[" ++ code.id ++ "]"
    | none => ""
  d.severity.name ++ code ++ ": " ++ d.message

/-- The errors among the findings. -/
def errors (ds : List Diagnostic) : List Diagnostic :=
  ds.filter isError

end Diagnostic

end CallGraph
