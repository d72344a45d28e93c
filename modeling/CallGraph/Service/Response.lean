import CallGraph.Service.Failure
import CallGraph.Text.JsonValue

/-!
# Responses

Whatever becomes of a request, the answer is a `Response`: a status, a body and a code.

| status             | when                                            | body      | code      |
|--------------------|-------------------------------------------------|-----------|-----------|
| `ok`               | executed                                        | trace     | as set    |
| `ok`               | linted without errors                           | findings  | 200       |
| `diagnostics`      | linted with at least one error                  | findings  | 400       |
| `syntax_error`     | the text is refused                             | error     | 400       |
| `rejected`         | the unit is refused                             | findings  | 400       |
| `execution_failed` | a node failed, or the unit did not finish       | failure   | 500       |
-/

namespace CallGraph

/-- What became of a request, in one word. -/
inductive Status where
  | ok
  | diagnostics
  | syntaxError
  | rejected
  | executionFailed
deriving DecidableEq

/-- What became of a request, in detail. -/
inductive Body where
  /-- What happened. -/
  | trace (t : Trace)
  /-- What was found, and the graph in DOT if it was linted. -/
  | findings (diagnostics : List Diagnostic) (dot : Option String)
  /-- Why the text is refused. -/
  | refusal (error : SyntaxError)
  /-- What failed, at which node, and what had happened before. -/
  | failure (node : Option String) (message : String) (trace : Option Trace)
deriving DecidableEq

/-- The answer to a request. -/
structure Response where
  /-- What became of it, in one word. -/
  status : Status
  /-- What became of it, in detail. -/
  body : Body
deriving DecidableEq

namespace Response

/-- The answer to a request that was processed. -/
def ofOutcome : Outcome → Response
  | .executed execution => ⟨.ok, .trace execution.trace⟩
  | .linted report =>
    ⟨if report.hasErrors then .diagnostics else .ok, .findings report.diagnostics (some report.dot)⟩

/-- The answer to a request that failed. -/
def ofFailure : Failure → Response
  | .unreadable error _ => ⟨.syntaxError, .refusal error⟩
  | .execution (.rejected errors) => ⟨.rejected, .findings errors none⟩
  | .execution (.cycle path) => ⟨.rejected, .findings [(Fault.cycle path).toUnplaced] none⟩
  | .execution (.nodeFailed node message trace) =>
    ⟨.executionFailed, .failure (some node) message (some trace)⟩
  | failure => ⟨.executionFailed, .failure none failure.message none⟩

/-- The answer to a request. -/
def ofResult : Except Failure Outcome → Response
  | .ok outcome => ofOutcome outcome
  | .error failure => ofFailure failure

/-- What happened, if nodes were run. -/
def trace? (r : Response) : Option Trace :=
  match r.body with
  | .trace t => some t
  | .failure _ _ t => t
  | _ => none

/-- The code of a request that was answered as asked. -/
def okCode : Nat := 200

/-- The code of the answer. -/
def code (r : Response) : Nat :=
  match r.status with
  | .ok =>
    match r.body with
    | .trace t => if 0 ≤ t.response ∧ t.response ≤ 0xFFFF then t.response.toNat else okCode
    | _ => okCode
  | .diagnostics | .syntaxError | .rejected => 400
  | .executionFailed => 500

end Response

/-- Answers a request to process a source. -/
def handle (c : Configuration) (mode : Mode) (source : String) : Response :=
  .ofResult (processSource c mode source)

/-! ### Responses in JSON -/

/-- The status in one word. -/
def Status.name : Status → String
  | .ok => "ok"
  | .diagnostics => "diagnostics"
  | .syntaxError => "syntax_error"
  | .rejected => "rejected"
  | .executionFailed => "execution_failed"

namespace JsonValue

/-- A natural number. -/
def natural (n : Nat) : JsonValue := number n

/-- The object of those fields that have a value. -/
def ofFields (fields : List (String × Option JsonValue)) : JsonValue :=
  object (fields.filterMap fun (key, value) => value.map fun v => (key, v))

end JsonValue

open JsonValue

/-- A finding: only the first primary label is kept as a position, the secondary ones as notes. -/
def Diagnostic.toJson (d : Diagnostic) : JsonValue :=
  let location := d.span?.map Span.location
  let notes := (d.labels.filter fun label => !label.isPrimary).map fun label => text label.display
  ofFields [
    ("severity", some (text d.severity.name)),
    ("code", d.code.map fun code => text code.id),
    ("message", some (text d.message)),
    ("line", location.map fun l => natural l.line),
    ("column", location.map fun l => natural l.column),
    ("help", d.help.map text),
    ("notes", if notes.isEmpty then none else some (list notes))]

/-- A call. -/
def Call.toJson (c : Call) : JsonValue :=
  ofFields [
    ("target", some (text c.target)),
    ("kind", some (text c.kind)),
    ("repeat", some (natural c.repeats)),
    ("address", c.address.map text),
    ("has_payload", some (boolean c.hasPayload))]

/-- A stage. -/
def Stage.toJson (s : Stage) : JsonValue :=
  object [("sequence", natural s.sequence), ("calls", list (s.calls.map Call.toJson))]

/-- A node that ran. -/
def Step.toJson (s : Step) : JsonValue :=
  object [("node", text s.node), ("stages", list (s.stages.map Stage.toJson))]

/-- The record of an execution. -/
def Trace.toJson (t : Trace) : JsonValue :=
  ofFields [
    ("steps", some (list (t.steps.map Step.toJson))),
    ("response", some (number t.response)),
    ("predelay_ms", some (natural t.predelay)),
    ("postdelay_ms", some (natural t.postdelay)),
    ("call_timeout_ms", t.callTimeout.map natural),
    ("healthy", t.healthy.map boolean)]

/-- The reason why a text is refused. -/
def SyntaxError.toJson (e : SyntaxError) : JsonValue :=
  object [
    ("code", .text e.code.id),
    ("message", .text e.message),
    ("line", natural e.span.location.line),
    ("column", natural e.span.location.column),
    ("token", .text e.text),
    ("expected", list (e.expected.map fun t => .text t.name))]

/-- What became of a request. -/
def Body.toJson : Body → JsonValue
  | .trace t => t.toJson
  | .findings diagnostics dot =>
    ofFields [
      ("diagnostics", some (list (diagnostics.map Diagnostic.toJson))),
      ("dot", dot.map text)]
  | .refusal error => error.toJson
  | .failure node message t =>
    ofFields [
      ("node", node.map text),
      ("message", some (text message)),
      ("trace", t.map Trace.toJson)]

/-- The answer as it is sent. -/
def Response.toJson (r : Response) : JsonValue :=
  object [("status", text r.status.name), ("outcome", r.body.toJson)]

end CallGraph
