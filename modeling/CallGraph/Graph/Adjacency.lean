import CallGraph.Graph.Basic

/-!
# Adjacency

For questions about paths, a graph is reduced to numbers: its nodes are numbered in order of
declaration, and an `Adjacency` lists for each number where the edges of that node lead, one entry
for each edge.
-/

namespace CallGraph

/-- Where the edges of each node lead, by number. -/
structure Adjacency where
  /-- For each node the targets of its edges, in the order of the edges. -/
  rows : List (List Nat)
deriving DecidableEq

namespace Adjacency

/-- The number of nodes. -/
def size (a : Adjacency) : Nat := a.rows.length

/-- The targets of the edges of a node. -/
def successors (a : Adjacency) (i : Nat) : List Nat := a.rows.getD i []

/-- How many edges lead into a node. -/
def indegree (a : Adjacency) (i : Nat) : Nat := a.rows.flatten.count i

end Adjacency

namespace Graph

/-- The number of a node. -/
def indexOf? (g : Graph) (name : String) : Option Nat :=
  g.nodes.findIdx? fun n => n.name = name

/-- The name of the node with a number. -/
def nameAt (g : Graph) (i : Nat) : String :=
  match g.nodes[i]? with
  | some n => n.name
  | none => ""

/-- The nodes with the given numbers. -/
def nodesAt (g : Graph) (indices : List Nat) : List Node :=
  indices.filterMap fun i => g.nodes[i]?

/-- Where the edges of the graph lead, by number. -/
def adjacency (g : Graph) : Adjacency :=
  ⟨g.nodes.map fun n => (g.edgesFrom n.name).filterMap fun e => g.indexOf? e.target⟩

end Graph

end CallGraph
