import CallGraph.Unit.Lint

/-!
# Sessions

A `Session` reads and processes units one after the other: it executes them or it lints them.  Every
unit starts from the same scope, and nothing of one unit is left for the next.

* `Behavior` — what is done with units, as units of their own or as payloads nested in others;
* `Session.reset` — where every unit starts, one part of the session after the other;
* `Session.read` — statement by statement, with the forward references at the end;
* `Session.parse`, `Session.run` — a text as a new unit.
-/

namespace CallGraph

/-- What is done with a unit. -/
inductive Mode where
  /-- It is executed. -/
  | app
  /-- It is linted. -/
  | lint
deriving DecidableEq

namespace Mode

instance : Inhabited Mode := ⟨app⟩

/-- The mode in one word. -/
def name : Mode → String
  | app => "app"
  | lint => "lint"

/-- The mode of a name. -/
def ofName? (name : String) : Option Mode :=
  match name with
  | "app" => some app
  | "lint" => some lint
  | _ => none

/-- What there is to say about a name that is no mode. -/
def unknown (name : String) : String :=
  "unknown mode `" ++ name ++ "`, expected `app` or `lint`"

end Mode

/-- What is done with units, and how. -/
inductive Behavior where
  /-- They are executed. -/
  | execute (c : Configuration)
  /-- They are linted, nested as payloads at some depth, zero for units that are not payloads. -/
  | lint (c : Configuration) (depth : Nat)
deriving DecidableEq

namespace Behavior

instance : Inhabited Behavior := ⟨execute default⟩

/-- What a mode does under a configuration. -/
def ofMode (mode : Mode) (c : Configuration) : Behavior :=
  match mode with
  | .app => execute c
  | .lint => lint c 0

/-- Processes a unit. -/
def process (b : Behavior) (u : SourceUnit) : Except ExecutionError Outcome :=
  match b with
  | execute c => (CallGraph.execute c simulate u ()).1.map .executed
  | lint c depth => .ok (.linted (lintAt c depth u))

theorem process_ofMode_app (c : Configuration) (u : SourceUnit) :
    (ofMode .app c).process u = (CallGraph.execute c simulate u ()).1.map .executed :=
  rfl

theorem process_ofMode_lint (c : Configuration) (u : SourceUnit) :
    (ofMode .lint c).process u = .ok (.linted (CallGraph.lint c u)) :=
  rfl

end Behavior

/-- A reader and processor of units. -/
structure Session where
  /-- What is done with a unit. -/
  behavior : Behavior
  /-- How many mistakes the reader reports and skips before it gives up. -/
  budget : Nat
  /-- What every unit starts from. -/
  scope : Scope := {}
  /-- The unit under construction. -/
  draft : Draft := {}
deriving DecidableEq

namespace Session

/-- A session that works as a mode does under a configuration. -/
def ofMode (mode : Mode) (c : Configuration) : Session where
  behavior := .ofMode mode c
  budget := c.budget

/-- Lets units start at a place inside a larger text, as the payload of a call to `caller`. -/
def withOrigin (s : Session) (caller : String) (start : Location) : Session :=
  { s with scope := { s.scope with origin := some caller, start } }

/-- Declares a node without reading it from a text. -/
def addNode (s : Session) (n : Node) : Except Fault Unit × Session :=
  let (answer, graph) := s.draft.graph.insertNode n
  (answer, { s with draft := { s.draft with graph } })

/-- Declares an edge without reading it from a text. -/
def addEdge (s : Session) (e : Edge) : Except Fault Unit × Session :=
  let (answer, graph) := s.draft.graph.insertEdge e
  (answer, { s with draft := { s.draft with graph } })

/-- Goes back to where a unit starts: the graph of the seeds, no findings, no deferred edges, and no
node declared last. -/
def reset (s : Session) : Session :=
  let emptied := { s with draft := { s.draft with graph := {} } }
  let seeded := s.scope.seeds.foldl (fun s n => (s.addNode n).2) emptied
  { seeded with draft := { seeded.draft with diagnostics := [], deferred := [], lastNode := none } }

/-- Lets units refer to nodes that they do not declare, and begins a new unit. -/
def withNodes (s : Session) (seeds : List Node) : Session :=
  reset { s with scope := { s.scope with seeds } }

/-- Records what the reader of a text hands over. -/
def record (s : Session) (event : Event) : Session :=
  { s with draft := s.draft.record s.scope event }

/-- Retries the deferred edges: the faults that they meet. -/
def resolve (s : Session) : List Fault × Session :=
  let (faults, draft) := s.draft.resolve
  (faults, { s with draft })

/-- Reads a text into the unit under construction: records what the reader hands over, and then
retries the deferred edges unless the text is refused. -/
def read (s : Session) (text : String) : Except SyntaxError Unit × Session :=
  let parsed := CallGraph.parse s.budget s.scope.start text
  let recorded := parsed.events.foldl record s
  match parsed.result with
  | .error error => (.error error, recorded)
  | .ok () => (.ok (), recorded.resolve.2)

/-- Reads a text as a new unit. -/
def parse (s : Session) (text : String) : Except SyntaxError Unit × Session :=
  s.reset.read text

/-- Hands the graph over and leaves an empty one. -/
def finalize (s : Session) : Graph × Session :=
  (s.draft.graph, { s with draft := { s.draft with graph := {} } })

/-- Processes a graph together with the findings made so far, which are handed over too. -/
def process (s : Session) (g : Graph) : Except ExecutionError Outcome × Session :=
  (s.behavior.process ⟨g, s.draft.diagnostics⟩,
    { s with draft := { s.draft with diagnostics := [] } })

/-- Reads and processes a text. -/
def run (s : Session) (text : String) : Except ProcessingError Outcome × Session :=
  match s.parse text with
  | (.error error, s) => (.error (.unreadable error), s)
  | (.ok (), s) =>
    let (graph, s) := s.finalize
    let (result, s) := s.process graph
    (result.mapError .execution, s)

end Session

end CallGraph
