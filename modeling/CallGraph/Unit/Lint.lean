import CallGraph.Graph.Cycle
import CallGraph.Graph.Dot
import CallGraph.Unit.Outcome

/-!
# Linting

Linting finds what is wrong with a unit without executing it, and never fails.  The findings of
the unit itself come with those of its payloads, which are linted as units of their own: a payload
starts at the callee, can refer to all nodes of the unit around it, and is positioned in the whole
source.

* `unitFindings` — the findings of a unit without those of its payloads;
* `lintLevels` — the report of a unit and of the payloads so many levels down;
* `lint` — the report of a unit that is no payload.
-/

namespace CallGraph

/-! ### Single checks -/

/-- Edges that occur twice. -/
def duplicateEdges (g : Graph) : List Diagnostic :=
  let edges := Edge.sort g.edges
  (edges.zip edges.tail).filterMap fun (a, b) =>
    if a.duplicates b then
      some ((Fault.duplicateEdge b.source b.target b.kind a.span).toDiagnostic b.span)
    else none

/-- Edges with ends that are not declared. -/
def danglingReferences (g : Graph) : List Diagnostic :=
  g.edges.flatMap fun e =>
    (g.missingEnds e).map fun name => (Fault.unresolvedReference name).toDiagnostic e.span

/-- Whether a finding with the same code and position is among the given ones. -/
def isReported (reported : List Diagnostic) (d : Diagnostic) : Bool :=
  reported.any fun r => r.code = d.code && r.span? = d.span?

/-- Cycles, each at the edge that closes it. -/
def cycleFindings (g : Graph) : List Diagnostic :=
  g.cycles.map fun path =>
    match g.closingEdge? path with
    | some e => (Fault.cycle path).toDiagnostic e.span
    | none => (Fault.cycle path).toUnplaced

/-- The finding about a node that no edge touches. -/
def unusedNode (n : Node) : Diagnostic where
  severity := .warning
  code := some .unusedNode
  message := "node `" ++ n.name ++ "` is never called and calls nothing"
  labels := [.primary n.span "unused node"]
  help := some "connect it with an edge or remove it"

/-- Nodes that no edge touches. -/
def unusedNodes (g : Graph) : List Diagnostic :=
  (g.nodes.filter fun n => (g.edgesFrom n.name).isEmpty && (g.edgesTo n.name).isEmpty).map
    unusedNode

/-- The finding about a payload that is nested too deep to be linted. -/
def deepPayload (limit : Nat) (payload : Located String) : Diagnostic where
  severity := .warning
  code := some .deepPayload
  message := "payload nested deeper than " ++ toString limit ++ " levels is not checked"
  labels := [.primary payload.span "not linted"]
  help := some "raise `max_payload_depth` in the `[lint]` section"

/-! ### Reports -/

/-- Whether a finding may stand before another: the one that starts earlier first, and those
without a position last. -/
def Diagnostic.before (a b : Diagnostic) : Bool :=
  match a.span?, b.span? with
  | some s, some t => s.start ≤ t.start
  | none, some _ => false
  | _, none => true

/-- The findings of a unit without those of its payloads; `top` tells whether the unit is not a
payload itself. -/
def unitFindings (c : Configuration) (top : Bool) (u : SourceUnit) : List Diagnostic :=
  let g := u.graph
  let again := (duplicateEdges g ++ danglingReferences g).filter fun d =>
    !isReported u.diagnostics d
  let topOnly :=
    if top then
      checkAddresses c.requireAddress g ++ (if c.unusedNodes then unusedNodes g else [])
    else []
  u.diagnostics ++ again ++ cycleFindings g ++ checkSettings g ++ topOnly

/-- The unit inside a payload sees the nodes around it and starts at the callee. -/
def payloadScope (g : Graph) (callee : String) (payload : Located String) : Scope where
  origin := some callee
  start := payload.span.location
  seeds := g.nodes

/-- The finding about a payload that was read but not linted. -/
def unlintedPayload (payload : Located String) (error : ExecutionError) : Diagnostic where
  severity := .error
  message := "payload could not be linted: " ++ error.message
  labels := [.primary payload.span "in this payload"]

/-- What linting a payload as a unit contributes to the report of the unit around it.  If the text is
refused, that is what was found before, and the error itself. -/
def payloadFindings (payload : Located String) :
    Except ProcessingError Outcome × Draft → List Diagnostic
  | (.ok (.linted report), _) => report.diagnostics
  | (.ok (.executed _), _) => []
  | (.error (.unreadable error), draft) => draft.diagnostics ++ [error.toDiagnostic]
  | (.error (.execution error), _) => [unlintedPayload payload error]

/-- Reports the findings of a unit and of its payloads.  Payloads are linted while there are levels
left, and only noted when there are none. -/
def lintLevels (c : Configuration) (top : Bool) (levels : Nat) (u : SourceUnit) : Report :=
  let inPayload (e : Edge) (payload : Located String) : List Diagnostic :=
    match levels with
    | 0 => [deepPayload c.payloadDepth payload]
    | levels + 1 =>
      payloadFindings payload
        (processText (fun v => .ok (.linted (lintLevels c false levels v))) c.budget
          (payloadScope u.graph e.target payload) payload.value)
  let inPayloads :=
    if c.payloads then
      u.graph.edges.flatMap fun e => (e.details.payload.map (inPayload e)).getD []
    else []
  ⟨(unitFindings c top u ++ inPayloads).mergeSort Diagnostic.before,
    if top then u.graph.toDot else ""⟩

/-- Reports the findings of a unit that is nested as a payload at some depth, zero for a unit that
is not a payload. -/
def lintAt (c : Configuration) (depth : Nat) (u : SourceUnit) : Report :=
  lintLevels c (depth = 0) (c.payloadDepth - depth) u

/-- Reports the findings of a unit. -/
def lint (c : Configuration) (u : SourceUnit) : Report := lintAt c 0 u

end CallGraph
