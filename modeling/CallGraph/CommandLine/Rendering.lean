import CallGraph.Service.Reportable

/-!
# Answers for people to read

An execution is written node by node, with the calls of each stage on one line.  A lint report is
its findings one after the other and a line that counts them.  How a single reportable is presented
is up to the program, so it is a parameter here.
-/

namespace CallGraph

/-- The lines, each with its end. -/
def unlines (lines : List String) : String :=
  String.join (lines.map fun line => line ++ "\n")

/-! ### Executions -/

/-- A call: its target, and whatever is out of the ordinary about it. -/
def Call.render (c : Call) : String :=
  let kind := if c.kind = defaultKind then "" else " [" ++ c.kind ++ "]"
  let repeats := if 1 < c.repeats then " x" ++ toString c.repeats else ""
  let address := match c.address with
    | some address => " (" ++ address ++ ")"
    | none => ""
  c.target ++ kind ++ repeats ++ address

/-- A stage on one line. -/
def Stage.render (s : Stage) : String :=
  "  stage " ++ toString s.sequence ++ ": " ++ ", ".intercalate (s.calls.map Call.render)

/-- The lines about a node that ran. -/
def Step.lines (s : Step) : List String := s.node :: s.stages.map Stage.render

/-- The line about the response of a unit. -/
def Trace.summary (t : Trace) : String :=
  let health := match t.healthy with
    | some healthy => " (healthy: " ++ toString healthy ++ ")"
    | none => ""
  "response " ++ toString t.response ++ health

/-- An execution as a text. -/
def Trace.render (t : Trace) : String :=
  unlines (t.steps.flatMap Step.lines ++ [t.summary])

/-! ### Reports -/

/-- Reportables one after the other, each as it is presented. -/
def renderReportables (present : Reportable → String) (rs : List Reportable) : String :=
  String.join (rs.map present)

/-- The line that counts the findings of a report. -/
def Report.summary (r : Report) : String :=
  toString r.errorCount ++ " error(s), " ++ toString r.warningCount ++ " warning(s)"

/-- A lint report as a text. -/
def Report.render (present : Reportable → String) (r : Report) : String :=
  renderReportables present (r.diagnostics.map Reportable.ofDiagnostic) ++ unlines [r.summary]

end CallGraph
