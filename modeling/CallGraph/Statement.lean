import CallGraph.Diagnostic.Basic
import CallGraph.Value

/-!
# Statements

A unit is a sequence of statements.  This is what one statement says, each part with its span.  An
`Event` is what the reader of a text hands over: a complete statement, or a report about a mistake
that was skipped.
-/

namespace CallGraph

/-- An attribute of a node, an option of an edge, or a setting: `key = value`. -/
structure Assignment where
  /-- What is assigned to. -/
  key : Located String
  /-- What is assigned. -/
  value : Located Value
deriving DecidableEq

namespace Assignment

/-- The span from the key to the value. -/
def span (a : Assignment) : Span := a.key.span.union a.value.span

end Assignment

/-- A node declaration: `.name [ key = value, ... ]`. -/
structure NodeStatement where
  /-- The name of the node. -/
  name : Located String
  /-- Its attributes. -/
  attributes : List Assignment
  /-- The whole statement. -/
  span : Span
deriving DecidableEq

/-- An edge declaration: `source -> target key = value ... { payload }`.  The source may be left
out. -/
structure EdgeStatement where
  /-- The node that calls, unless it is implied. -/
  source : Option (Located String)
  /-- The node that is called. -/
  target : Located String
  /-- The options of the call. -/
  options : List Assignment
  /-- The text between the braces; its span covers that text only. -/
  payload : Option (Located String)
  /-- The whole statement. -/
  span : Span
deriving DecidableEq

/-- What the reader of a text hands over. -/
inductive Event where
  /-- A node is declared. -/
  | node (statement : NodeStatement)
  /-- An edge is declared. -/
  | edge (statement : EdgeStatement)
  /-- A setting is assigned. -/
  | setting (assignment : Assignment)
  /-- A mistake was skipped. -/
  | report (diagnostic : Diagnostic)
deriving DecidableEq

end CallGraph
