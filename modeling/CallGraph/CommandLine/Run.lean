import CallGraph.CommandLine.Files
import CallGraph.CommandLine.Options
import CallGraph.CommandLine.Rendering
import CallGraph.Service.Response

/-!
# Runs

A run processes one unit as a command line asks.  `answer` is what it says about a source under a
configuration:

* in JSON, the response to the source, whatever becomes of it;
* in DOT, the graph that the source describes, neither executed nor linted;
* as a text, the execution or the lint report.  A node that fails and a unit that is rejected are
  answers too, but a text that is refused and a cycle are failures of the run.

`run` takes the configuration and the source from the files.
-/

namespace CallGraph

/-- How a run turned out that gave an answer. -/
inductive Completion where
  /-- The unit was executed, or linted without errors. -/
  | clean
  /-- The unit has errors, or a node failed. -/
  | findings
deriving DecidableEq

/-- What is written. -/
inductive Output where
  /-- A text. -/
  | text (content : String)
  /-- A lint report. -/
  | report (r : Report)
  /-- The errors for which a unit is rejected. -/
  | rejection (errors : List Diagnostic)
deriving DecidableEq

/-- The output as a text, where reportables are presented in some way. -/
def Output.render (present : Reportable → String) : Output → String
  | text content => content
  | report r => r.render present
  | rejection errors => renderReportables present (errors.map Reportable.ofDiagnostic)

/-- What a run answers. -/
structure Answer where
  /-- How it turned out. -/
  completion : Completion
  /-- What is written. -/
  output : Output
  /-- What the unit logged. -/
  logs : List (LogLevel × String) := []
deriving DecidableEq

namespace Answer

/-- The answer in JSON. -/
def json (result : Except Failure Outcome) : Answer :=
  let response := Response.ofResult result
  { completion := if response.status = .ok then .clean else .findings
    output := .text (response.toJson.render ++ "\n")
    logs := (result.toOption.map Outcome.logs).getD [] }

/-- The answer as a text, to a unit that was processed. -/
def ofOutcome : Outcome → Answer
  | .executed execution =>
    { completion := .clean, output := .text execution.trace.render, logs := execution.logs }
  | .linted report =>
    { completion := if report.hasErrors then .findings else .clean, output := .report report }

/-- The answer as a text, or the failure of the run. -/
def text : Except Failure Outcome → Except Failure Answer
  | .ok outcome => .ok (ofOutcome outcome)
  | .error (.execution (.rejected errors)) =>
    .ok { completion := .findings, output := .rejection errors }
  | .error (.execution (.nodeFailed node message trace)) =>
    let report := trace.render ++ unlines ["failed at `" ++ node ++ "`: " ++ message]
    .ok { completion := .findings, output := .text report }
  | .error failure => .error failure

/-- The answer in DOT, or the failure of the run. -/
def dot (c : Configuration) (source : String) : Except Failure Answer :=
  match Draft.ofText c.budget {} source with
  | (_, .error error) => .error (.unreadable error source)
  | (draft, .ok ()) => .ok { completion := .clean, output := .text draft.graph.toDot }

end Answer

/-- What a run answers to a source, or why it fails. -/
def answer (c : Configuration) (mode : Mode) (format : Format) (source : String) :
    Except Failure Answer :=
  match format with
  | .json => .ok (.json (processSource c mode source))
  | .dot => Answer.dot c source
  | .text => Answer.text (processSource c mode source)

namespace Files

/-- The configuration under which a command line wants its unit processed. -/
def configurationFor (f : Files) (o : Options) : Except Failure Configuration :=
  (f.configuration o.configuration).map fun c => if o.strict then c.strict else c

/-- The source that a command line names. -/
def source (f : Files) (o : Options) : Except Failure String :=
  if o.readsStandardInput then decode f.standardInput else f.read o.input

/-- What a run answers, or why it fails.  The configuration is looked at before the source, and the
place of the answer last. -/
def run (f : Files) (o : Options) : Except Failure Answer := do
  let c ← f.configurationFor o
  let source ← f.source o
  let answer ← CallGraph.answer c o.mode o.format source
  match o.output with
  | some path => f.admits path
  | none => pure ()
  pure answer

end Files

end CallGraph
