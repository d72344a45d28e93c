import CallGraph.Graph.Basic

/-!
# Graphs in DOT

A graph is written in the DOT language of Graphviz.  A node is a record that lists its attributes
and its name; an edge is labelled with its stage, its repeats if there are several, and its kind
if it is not the default one.
-/

namespace CallGraph

namespace Dot

/-- One character of a record label.  Quotes become apostrophes, and the characters that structure
a record are escaped. -/
def escapeChar (c : Char) : List Char :=
  match c with
  | '"' => ['\'']
  | '\x7b' | '\x7d' | '|' | '<' | '>' => ['\\', c]
  | _ => [c]

/-- The text of a field of a record label. -/
def escape (text : String) : String :=
  String.ofList (text.toList.flatMap escapeChar)

/-- One field of a record label. -/
def field (entry : String × Value) : String :=
  escape entry.1 ++ "=" ++ escape entry.2.display ++ "|"

/-- The line of a node. -/
def node (n : Node) : String :=
  "  \"" ++ n.name ++ "\" [label=\"\x7b" ++ String.join (n.attributes.entries.map field) ++
    escape n.name ++ "\x7d\"];\n"

/-- The line of an edge. -/
def edge (e : Edge) : String :=
  let repeats := if 1 < e.details.repeats then " x" ++ toString e.details.repeats else ""
  let kind := if e.kind = defaultKind then "" else ", xlabel=\"" ++ escape e.kind ++ "\""
  "  \"" ++ e.source ++ "\" -> \"" ++ e.target ++ "\" [label=\"" ++
    toString e.details.sequence ++ repeats ++ "\"" ++ kind ++ "];\n"

end Dot

/-- The graph in DOT. -/
def Graph.toDot (g : Graph) : String :=
  "digraph fidi \x7b\n  node [shape=record];\n" ++ String.join (g.nodes.map Dot.node) ++
    String.join (g.edges.map Dot.edge) ++ "\x7d\n"

end CallGraph
