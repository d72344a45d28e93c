import CallGraph.Diagnostic.Basic

/-!
# Faults of a graph

A `Fault` is the reason why a graph refuses a node or an edge, or has no order.  It becomes a
diagnostic once the span of the statement that caused it is known.
-/

namespace CallGraph

/-- Why a graph operation or a check of the graph fails. -/
inductive Fault where
  /-- A node of this name is declared already, at the given span. -/
  | duplicateDeclaration (name : String) (first : Span)
  /-- No node of this name is declared. -/
  | unresolvedReference (name : String)
  /-- An edge with these ends and this kind is declared already, at the given span. -/
  | duplicateEdge (source target kind : String) (first : Span)
  /-- The nodes on this path call each other in a circle. -/
  | cycle (path : List String)
  /-- An edge to this node has no source. -/
  | missingSource (target : String)
deriving DecidableEq

namespace Fault

/-- The circle on one line. -/
def cycleMessage (path : List String) : String :=
  "cycle detected: " ++ " -> ".intercalate path

/-- The fault in one sentence. -/
def message : Fault → String
  | duplicateDeclaration name _ => "node `" ++ name ++ "` is declared more than once"
  | unresolvedReference name => "reference to undeclared node `" ++ name ++ "`"
  | duplicateEdge source target kind _ =>
    "edge `" ++ source ++ " -> " ++ target ++ "` of kind `" ++ kind ++
      "` is declared more than once"
  | cycle path => cycleMessage path
  | missingSource target => "edge to `" ++ target ++ "` has no source node"

/-- The code under which the fault is listed. -/
def code : Fault → Code
  | duplicateDeclaration _ _ => .duplicateDeclaration
  | unresolvedReference _ => .unresolvedReference
  | duplicateEdge _ _ _ _ => .duplicateEdge
  | cycle _ => .cycle
  | missingSource _ => .missingSource

/-- A second declaration of a node is only a warning, since the first one is kept. -/
def severity : Fault → Severity
  | duplicateDeclaration _ _ => .warning
  | _ => .error

/-- The labels that show the fault at the statement that caused it. -/
def labels (span : Span) : Fault → List Label
  | duplicateDeclaration _ first =>
    [.primary span "duplicate declaration", .secondary first "first declared here"]
  | unresolvedReference name => [.primary span ("`" ++ name ++ "` is never declared")]
  | duplicateEdge _ _ _ first =>
    [.primary span "duplicate edge", .secondary first "first declared here"]
  | cycle _ => [.primary span "this edge closes the cycle"]
  | missingSource _ => [.primary span "no node is declared before this edge"]

/-- How to mend the fault. -/
def help : Fault → String
  | duplicateDeclaration _ _ => "the first declaration is kept; remove or rename this one"
  | unresolvedReference name => "declare it with `." ++ name ++ " [ ]`"
  | duplicateEdge _ _ _ _ => "use a different `kind` to declare a second relation"
  | cycle _ => "nodes in a cycle have no execution order"
  | missingSource _ => "write the source explicitly: `source -> target;`"

/-- The finding about a statement at `span` that causes the fault. -/
def toDiagnostic (fault : Fault) (span : Span) : Diagnostic where
  severity := fault.severity
  code := some fault.code
  message := fault.message
  labels := fault.labels span
  help := some fault.help

/-- The finding about a fault that no statement is to blame for. -/
def toUnplaced (fault : Fault) : Diagnostic where
  severity := .error
  code := some fault.code
  message := fault.message

end Fault

end CallGraph
