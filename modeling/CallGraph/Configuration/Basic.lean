import CallGraph.Configuration.Document

/-!
# Configurations

A `Configuration` collects what can be chosen about reading, executing and linting units.  Every
field has a default, so an empty document, or none at all, is a configuration too.
`Configuration.ofDocument?` reads one; unknown sections and fields are ignored, and a field with a
value that it cannot take spoils the whole document.
-/

namespace CallGraph

/-- What can be chosen about the processing of units. -/
structure Configuration where
  /-- How many mistakes a reader reports and skips before it gives up. -/
  budget : Nat := 16
  /-- Whether units with cycles are executed. -/
  allowCycles : Bool := false
  /-- How many milliseconds a scheduled unit may take, if there is a limit. -/
  timeout : Option Nat := none
  /-- Whether every node must be reachable. -/
  requireAddress : Bool := false
  /-- Whether nodes that no edge touches are reported. -/
  unusedNodes : Bool := false
  /-- Whether payloads are linted as units. -/
  payloads : Bool := true
  /-- How deep payloads may be nested to be linted. -/
  payloadDepth : Nat := 8
deriving DecidableEq

namespace Configuration

instance : Inhabited Configuration := ⟨{}⟩

/-- The configuration under which the first mistake is fatal. -/
def strict (c : Configuration) : Configuration := { c with budget := 0 }

/-- Whether mistakes are skipped at all. -/
def recovers (c : Configuration) : Bool := 0 < c.budget

/-- Reads the section on reading texts. -/
def readParser? (surplus : Surplus) (c : Configuration) (d : Document) : Option Configuration := do
  match ← d.fields? surplus ["max_recoveries"] with
  | [budget] => pure { c with budget := ← Document.read Document.asNatural? c.budget budget }
  | _ => none

/-- Reads the section on executing units. -/
def readApp? (surplus : Surplus) (c : Configuration) (d : Document) : Option Configuration := do
  match ← d.fields? surplus ["allow_cycles", "timeout_ms", "require_address"] with
  | [cycles, timeout, address] =>
    pure { c with
      allowCycles := ← Document.read Document.asBool? c.allowCycles cycles
      timeout := ← Document.read Document.asLimit? c.timeout timeout
      requireAddress := ← Document.read Document.asBool? c.requireAddress address }
  | _ => none

/-- Reads the section on linting units. -/
def readLint? (surplus : Surplus) (c : Configuration) (d : Document) : Option Configuration := do
  match ← d.fields? surplus ["unused_nodes", "payloads", "max_payload_depth"] with
  | [unused, payloads, depth] =>
    pure { c with
      unusedNodes := ← Document.read Document.asBool? c.unusedNodes unused
      payloads := ← Document.read Document.asBool? c.payloads payloads
      payloadDepth := ← Document.read Document.asNatural? c.payloadDepth depth }
  | _ => none

/-- The configuration that a document describes. -/
def ofDocument? (surplus : Surplus) (d : Document) : Option Configuration := do
  match ← d.fields? surplus ["parser", "app", "lint"] with
  | [parser, app, lint] =>
    let c ← Document.read (readParser? surplus {}) {} parser
    let c ← Document.read (readApp? surplus c) c app
    Document.read (readLint? surplus c) c lint
  | _ => none

end Configuration

end CallGraph
