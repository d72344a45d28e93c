import CallGraph.Configuration.Basic
import CallGraph.Graph.Basic
import CallGraph.Parser.Machine

/-!
# Drafts

A `Draft` is a unit under construction.  Statements are recorded one by one; what is wrong with
them is kept as findings and never stops the construction.

* The first declaration of a node is kept, and so is the first edge of a key.
* An edge that mentions a node not declared yet is deferred, and so is one that a deferred edge
  duplicates; `Draft.resolve` retries the deferred edges in order once all statements are recorded.
* An edge without a source starts at the node declared last, or else at the origin of the unit.
-/

namespace CallGraph

/-- What a unit starts from. -/
structure Scope where
  /-- The source of edges that name none and that no node precedes. -/
  origin : Option String := none
  /-- Where the text of the unit starts. -/
  start : Location := .start
  /-- Nodes that the unit can refer to without declaring them. -/
  seeds : List Node := []
deriving DecidableEq

/-- A unit whose construction is complete. -/
structure SourceUnit where
  /-- What the statements describe. -/
  graph : Graph := {}
  /-- What was found while reading them. -/
  diagnostics : List Diagnostic := []
deriving DecidableEq

/-- A unit under construction. -/
structure Draft where
  /-- What the statements so far describe. -/
  graph : Graph := {}
  /-- What was found so far. -/
  diagnostics : List Diagnostic := []
  /-- Edges that wait for the end of the unit, in order of declaration. -/
  deferred : List Edge := []
  /-- The node declared last. -/
  lastNode : Option String := none
deriving DecidableEq

/-- Folds the options of an edge into its details, and finds what is wrong with them. -/
structure OptionReading where
  /-- The details so far. -/
  details : Details := default
  /-- What was found so far, in the order of the options. -/
  diagnostics : List Diagnostic := []

namespace OptionReading

/-- A number from one up that fits into 32 bits. -/
def positive? (v : Value) : Option Nat :=
  match v.asNumber? with
  | some n => if 0 < n ∧ n ≤ 0xFFFFFFFF then some n.toNat else none
  | none => none

/-- A text or word that is not empty. -/
def nonempty? (v : Value) : Option String :=
  match v.asText? with
  | some name => if name.isEmpty then none else some name
  | none => none

/-- The finding about an option that does not exist. -/
def unknown (option : Assignment) : Diagnostic where
  severity := .warning
  code := some .unknownOption
  message := "unknown edge option `" ++ option.key.value ++ "`"
  labels := [.primary option.span "ignored"]
  help := some "edge options are `kind`, `sequence` and `repeat`"

/-- The finding about an option with a value that it cannot take. -/
def invalid (option : Assignment) (expected : String) : Diagnostic where
  severity := .error
  code := some .invalidOption
  message := "invalid value `" ++ option.value.value.display ++ "` for edge option `" ++
    option.key.value ++ "`"
  labels := [.primary option.span ("expected " ++ expected)]
  help := some "the default is used instead"

/-- Notes a finding. -/
def note (r : OptionReading) (d : Diagnostic) : OptionReading :=
  { r with diagnostics := r.diagnostics ++ [d] }

/-- Reads one option.  An option that is refused leaves the details as they are. -/
def read (r : OptionReading) (option : Assignment) : OptionReading :=
  let value := option.value.value
  match option.key.value with
  | "kind" =>
    match nonempty? value with
    | some kind => { r with details := r.details.withKind kind }
    | none => r.note (invalid option "a non-empty name")
  | "sequence" =>
    match positive? value with
    | some n => { r with details := r.details.withSequence n }
    | none => r.note (invalid option "a positive integer")
  | "repeat" =>
    match positive? value with
    | some n => { r with details := r.details.withRepeats n }
    | none => r.note (invalid option "a positive integer")
  | _ => r.note (unknown option)

/-- Reads all options of an edge. -/
def ofOptions (options : List Assignment) : OptionReading :=
  options.foldl read {}

end OptionReading

/-- The fault that an operation answers, if there is one. -/
def faultsOf : Except Fault Unit → List Fault
  | .ok () => []
  | .error fault => [fault]

namespace Draft

/-- The draft of a unit of which nothing has been read: the seeds are declared, each name once. -/
def fresh (scope : Scope) : Draft where
  graph := scope.seeds.foldl (fun g n => (g.insertNode n).2) {}

/-- Notes a finding. -/
def report (d : Draft) (finding : Diagnostic) : Draft :=
  { d with diagnostics := d.diagnostics ++ [finding] }

/-- Notes faults that were met at the span. -/
def note (d : Draft) (span : Span) (faults : List Fault) : Draft :=
  { d with diagnostics := d.diagnostics ++ faults.map fun fault => fault.toDiagnostic span }

/-- Declares a node, and makes it the source of the edges that name none. -/
def declareNode (d : Draft) (s : NodeStatement) : Draft :=
  let attributes := Dictionary.ofList (s.attributes.map fun a => (a.key.value, a.value.value))
  let (answer, graph) := d.graph.insertNode ⟨s.name.value, attributes, s.span⟩
  { { d with graph }.note s.span (faultsOf answer) with lastNode := some s.name.value }

/-- Inserts an edge, or notes why it cannot be inserted. -/
def insertEdge (d : Draft) (e : Edge) : Draft :=
  let (answer, graph) := d.graph.insertEdge e
  { d with graph }.note e.span (faultsOf answer)

/-- Inserts an edge, or defers it if it mentions an unknown node or if it duplicates a deferred
edge. -/
def admitEdge (d : Draft) (e : Edge) : Draft :=
  if d.deferred.any (fun f => f.key = e.key) || !(d.graph.missingEnds e).isEmpty then
    { d with deferred := d.deferred ++ [e] }
  else d.insertEdge e

/-- Declares an edge. -/
def declareEdge (scope : Scope) (d : Draft) (s : EdgeStatement) : Draft :=
  let source := (s.source.map Located.value).or (d.lastNode.or scope.origin)
  match source with
  | none => d.report ((Fault.missingSource s.target.value).toDiagnostic s.span)
  | some source =>
    let options := OptionReading.ofOptions s.options
    let details := match s.payload with
      | some payload => options.details.withPayload payload
      | none => options.details
    { d with diagnostics := d.diagnostics ++ options.diagnostics }.admitEdge
      ⟨source, s.target.value, details, s.span⟩

/-- The finding about a setting that was assigned before. -/
def reassigned (a : Assignment) (previous : Span) : Diagnostic where
  severity := .warning
  code := some .reassignedSetting
  message := "setting `" ++ a.key.value ++ "` is assigned more than once"
  labels := [.primary a.span "this value is used",
    .secondary previous "previously assigned here"]
  help := some "the last assignment wins"

/-- Assigns a setting. -/
def assign (d : Draft) (a : Assignment) : Draft :=
  let (previous, graph) := d.graph.assign a.key.value ⟨a.value.value, a.span⟩
  let d := { d with graph }
  match previous with
  | some previous => d.report (reassigned a previous.span)
  | none => d

/-- Records what the reader of a text hands over. -/
def record (scope : Scope) (d : Draft) : Event → Draft
  | .node s => d.declareNode s
  | .edge s => d.declareEdge scope s
  | .setting a => d.assign a
  | .report finding => d.report finding

/-- Retries a deferred edge: the faults that it meets, and the draft with them noted. -/
def retry (d : Draft) (e : Edge) : List Fault × Draft :=
  let (faults, graph) := match d.graph.missingEnds e with
    | [] =>
      let (answer, graph) := d.graph.insertEdge e
      (faultsOf answer, graph)
    | missing => (missing.map Fault.unresolvedReference, d.graph)
  (faults, { d with graph }.note e.span faults)

/-- Retries all deferred edges in order: the faults that they meet, and the draft with none left
over. -/
def resolve (d : Draft) : List Fault × Draft :=
  d.deferred.foldl
    (fun (faults, d) e =>
      let (more, d) := d.retry e
      (faults ++ more, d))
    ([], { d with deferred := [] })

/-- Reads the text of a unit: the draft, complete unless there is an error. -/
def ofText (budget : Nat) (scope : Scope) (text : String) : Draft × Except SyntaxError Unit :=
  let parsed := parse budget scope.start text
  let d := parsed.events.foldl (record scope) (fresh scope)
  match parsed.result with
  | .error error => (d, .error error)
  | .ok () => (d.resolve.2, .ok ())

/-- The unit that the draft has become. -/
def toUnit (d : Draft) : SourceUnit := ⟨d.graph, d.diagnostics⟩

end Draft

end CallGraph
