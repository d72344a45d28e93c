import CallGraph.Graph.Order
import CallGraph.Graph.Stage
import CallGraph.Unit.Check
import CallGraph.Unit.Draft

/-!
# Execution

A unit is executed by running its nodes in order.  What a node does is up to an `Executor`, a
function that may keep a state and may fail; the execution stops at the first failure.  The
`Trace` tells which nodes ran and which calls they issued, stage by stage.

A unit with an error among its findings or its values is rejected before anything runs, and so is
one with a cycle unless cycles are allowed.
-/

namespace CallGraph

/-- One call as it is issued. -/
structure Call where
  /-- The node that is called. -/
  target : String
  /-- The kind of the call. -/
  kind : String
  /-- How often it is issued. -/
  repeats : Nat
  /-- Where the target can be reached, if its attributes say so. -/
  address : Option String
  /-- Whether a payload is sent along. -/
  hasPayload : Bool
deriving DecidableEq

/-- The calls issued at once. -/
structure Stage where
  /-- The sequence number of the calls. -/
  sequence : Nat
  /-- The calls in canonical order. -/
  calls : List Call
deriving DecidableEq

/-- How many calls a stage issues, repeats included. -/
def Stage.fanOut (s : Stage) : Nat := (s.calls.map Call.repeats).foldr (· + ·) 0

/-- One node that ran. -/
structure Step where
  /-- The name of the node. -/
  node : String
  /-- The stages in which it issued its calls. -/
  stages : List Stage
deriving DecidableEq

/-- The record of an execution. -/
structure Trace where
  /-- The nodes that ran, in order. -/
  steps : List Step
  /-- The response code of the unit. -/
  response : Int
  /-- How many milliseconds to wait before the calls. -/
  predelay : Nat
  /-- How many milliseconds to wait after the calls. -/
  postdelay : Nat
  /-- How many milliseconds a call may take, if that is limited. -/
  callTimeout : Option Nat
  /-- The health that the unit reports, if it does. -/
  healthy : Option Bool
deriving DecidableEq

namespace Trace

/-- The names of the nodes that ran, in order. -/
def order (t : Trace) : List String := t.steps.map Step.node

end Trace

/-! ### What the settings say -/

/-- The response code of a unit that does not set one. -/
def defaultResponse : Int := 200

/-- The path of a node that does not name one. -/
def defaultPath : String := "/fidi"

/-- The largest number of milliseconds that is kept. -/
def longestTime : Nat := 0xFFFFFFFFFFFFFFFF

namespace Graph

/-- The value of a setting that is a natural number. -/
def natural? (g : Graph) (key : String) : Option Nat :=
  match (g.setting? key).bind Value.asNumber? with
  | some n => if 0 ≤ n then some n.toNat else none
  | none => none

/-- The limit for a call in milliseconds, from whole seconds and microseconds.  It is cut off at
the longest time that is kept. -/
def callTimeout? (g : Graph) : Option Nat :=
  match g.natural? "timeout_sec", g.natural? "timeout_usec" with
  | none, none => none
  | seconds, micros =>
    let whole := min longestTime (seconds.getD 0 * 1000)
    some (min longestTime (whole + micros.getD 0 / 1000))

/-- The record of a unit before any node has run. -/
def emptyTrace (g : Graph) : Trace where
  steps := []
  response := ((g.setting? "response").bind Value.asNumber?).getD defaultResponse
  predelay := (g.natural? "predelay").getD 0
  postdelay := (g.natural? "postdelay").getD 0
  callTimeout := g.callTimeout?
  healthy := (g.setting? "healthy").bind Value.asBool?

end Graph

/-! ### Log lines -/

/-- How important a log line is. -/
inductive LogLevel where
  | error
  | warn
  | info
  | debug
  | trace
deriving DecidableEq

namespace LogLevel

/-- The level in one word. -/
def name : LogLevel → String
  | error => "error"
  | warn => "warn"
  | info => "info"
  | debug => "debug"
  | trace => "trace"

/-- The level that a setting asks for. -/
def ofName? (name : String) : Option LogLevel :=
  match name with
  | "error" | "fatal" | "critical" => some error
  | "warn" | "warning" => some warn
  | "info" | "information" | "notice" => some info
  | "debug" => some debug
  | "trace" => some trace
  | _ => none

/-- The level that is asked for by the key of a setting, `log_` in front of it. -/
def ofKey? (key : String) : Option LogLevel :=
  match key.toList with
  | 'l' :: 'o' :: 'g' :: '_' :: name => ofName? (String.ofList name)
  | _ => none

end LogLevel

/-- The lines that a unit logs once it has run, in order of first assignment. -/
def Graph.logLines (g : Graph) : List (LogLevel × String) :=
  g.settings.entries.filterMap fun (key, v) =>
    (LogLevel.ofKey? key).map fun level => (level, v.value.display)

/-! ### Calls -/

/-- Where a node can be reached: at its `url`, or else at its host name, port and path. -/
def Node.address? (n : Node) : Option String :=
  match n.attribute? "url", n.attribute? "hostname", n.attribute? "port" with
  | some url, _, _ => some url.display
  | none, some hostname, some port =>
    let path := ((n.attribute? "path").map Value.display).getD defaultPath
    some ("http://" ++ hostname.display ++ ":" ++ port.display ++ path)
  | none, _, _ => none

/-- An edge as a call. -/
def Edge.toCall (g : Graph) (e : Edge) : Call where
  target := e.target
  kind := e.kind
  repeats := e.details.repeats
  address := (g.node? e.target).bind Node.address?
  hasPayload := e.details.payload.isSome

/-- The stages in which a node issues its calls. -/
def Graph.callStages (g : Graph) (n : Node) : List Stage :=
  (g.stages n.name).map fun s => ⟨s.sequence, s.calls.map (Edge.toCall g)⟩

/-! ### Running nodes -/

/-- What a node does: it may fail with a message, and it may change the state. -/
abbrev Executor (σ : Type) := Node → List Stage → σ → Except String Unit × σ

/-- The text with which a node fails that asks for it by a truth value. -/
def requestedFailure : String := "failure requested by the `fail` attribute"

/-- The failure that the attributes of a node ask for. -/
def Node.failure? (n : Node) : Option String :=
  match n.attribute? "fail" with
  | some (.text message) => some message
  | some flag => if flag.asBool? = some true then some requestedFailure else none
  | none => none

/-- The executor that does nothing but fail where a node asks for it. -/
def simulate : Executor Unit := fun n _ s =>
  match n.failure? with
  | some message => (.error message, s)
  | none => (.ok (), s)

/-- What came out of running some nodes. -/
structure Run (σ : Type) where
  /-- The nodes that ran. -/
  steps : List Step
  /-- The node that failed and its message, if one did. -/
  failure : Option (String × String)
  /-- The state at the end. -/
  state : σ

/-- Runs the nodes one after the other, up to the first that fails. -/
def runNodes {σ : Type} (executor : Executor σ) (g : Graph) : List Node → σ → Run σ
  | [], s => ⟨[], none, s⟩
  | n :: rest, s =>
    let stages := g.callStages n
    match executor n stages s with
    | (.error message, s) => ⟨[], some (n.name, message), s⟩
    | (.ok (), s) =>
      let behind := runNodes executor g rest s
      { behind with steps := ⟨n.name, stages⟩ :: behind.steps }

/-! ### Executing units -/

/-- Why a unit is not executed to its end. -/
inductive ExecutionError where
  /-- These errors keep it from being executed. -/
  | rejected (errors : List Diagnostic)
  /-- The nodes on this path call each other in a circle. -/
  | cycle (path : List String)
  /-- A node failed with a message; the trace holds the nodes before it. -/
  | nodeFailed (node message : String) (trace : Trace)
deriving DecidableEq

namespace ExecutionError

/-- The error in one sentence. -/
def message : ExecutionError → String
  | rejected errors => "unit rejected with " ++ toString errors.length ++ " error(s)"
  | cycle path => Fault.cycleMessage path
  | nodeFailed node message _ => "node `" ++ node ++ "` failed: " ++ message

end ExecutionError

/-- A unit that was executed to its end. -/
structure Execution where
  /-- What happened. -/
  trace : Trace
  /-- What was logged. -/
  logs : List (LogLevel × String)
deriving DecidableEq

/-- The errors that keep a unit from being executed. -/
def obstacles (c : Configuration) (u : SourceUnit) : List Diagnostic :=
  Diagnostic.errors
    (u.diagnostics ++ checkSettings u.graph ++ checkAddresses c.requireAddress u.graph)

/-- The nodes in the order in which they run. -/
def executionOrder (c : Configuration) (g : Graph) : Except ExecutionError (List Node) :=
  if c.allowCycles then .ok g.relaxedOrder
  else
    match g.order with
    | .ok nodes => .ok nodes
    | .error (.cycle path) => .error (.cycle path)
    | .error fault => .error (.rejected [fault.toDiagnostic default])

/-- Executes a unit. -/
def execute {σ : Type} (c : Configuration) (executor : Executor σ) (u : SourceUnit) (s : σ) :
    Except ExecutionError Execution × σ :=
  match obstacles c u with
  | d :: ds => (.error (.rejected (d :: ds)), s)
  | [] =>
    match executionOrder c u.graph with
    | .error error => (.error error, s)
    | .ok nodes =>
      let ran := runNodes executor u.graph nodes s
      let trace := { u.graph.emptyTrace with steps := ran.steps }
      match ran.failure with
      | some (node, message) => (.error (.nodeFailed node message trace), ran.state)
      | none => (.ok ⟨trace, u.graph.logLines⟩, ran.state)

end CallGraph
