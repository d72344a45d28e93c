import CallGraph.Graph.Cycle

/-!
# Orders of execution

Nodes are placed one after the other.  A node is ready once all edges into it come from placed
nodes, and of the ready nodes the earliest declared one is placed next.

* `Graph.order` places nodes as long as one is ready; it fails if a cycle keeps some from becoming
  ready;
* `Graph.relaxedOrder` goes on by placing the earliest node that is left, ready or not.

A `Placement` counts for each node the edges into it from nodes not placed yet.  `Placement.release`
takes one edge of a node just placed into account.
-/

namespace CallGraph

/-- Inserts a number behind all smaller ones. -/
def insertAscending (i : Nat) : List Nat → List Nat
  | [] => [i]
  | j :: rest => if i ≤ j then i :: j :: rest else j :: insertAscending i rest

/-- Some nodes placed, the others waiting. -/
structure Placement where
  /-- The nodes placed, in order. -/
  order : List Nat := []
  /-- For each node the number of edges into it from nodes not placed. -/
  waiting : List Nat
  /-- The nodes that are ready, in ascending order. -/
  ready : List Nat
deriving DecidableEq

namespace Placement

/-- No node placed. -/
def initial (a : Adjacency) : Placement where
  waiting := (List.range a.size).map a.indegree
  ready := (List.range a.size).filter fun i => a.indegree i = 0

/-- Whether a node is placed. -/
def isPlaced (p : Placement) (i : Nat) : Bool := p.order.contains i

/-- Takes one edge from a node just placed into account. -/
def release (p : Placement) (target : Nat) : Placement :=
  if p.isPlaced target then p
  else
    let left := p.waiting.getD target 0 - 1
    { p with
      waiting := p.waiting.set target left
      ready := if left = 0 then insertAscending target p.ready else p.ready }

/-- Places a node and takes its edges into account. -/
def place (a : Adjacency) (p : Placement) (i : Nat) : Placement :=
  (a.successors i).foldl release { p with order := p.order ++ [i] }

/-- The earliest node that is not placed. -/
def earliestLeft (a : Adjacency) (p : Placement) : Option Nat :=
  (List.range a.size).find? fun i => !p.isPlaced i

/-- The node to place next, and the placement without it among the ready nodes. -/
def next? (a : Adjacency) (relaxed : Bool) (p : Placement) : Option (Nat × Placement) :=
  match p.ready.dropWhile p.isPlaced with
  | i :: rest => some (i, { p with ready := rest })
  | [] => if relaxed then (p.earliestLeft a).map fun i => (i, { p with ready := [] }) else none

/-- Places up to the given number of nodes. -/
def run (a : Adjacency) (relaxed : Bool) : Nat → Placement → Placement
  | 0, p => p
  | count + 1, p =>
    match p.next? a relaxed with
    | none => p
    | some (i, p) => run a relaxed count (p.place a i)

end Placement

/-- The numbers of the nodes in order of execution. -/
def Adjacency.order (a : Adjacency) (relaxed : Bool) : List Nat :=
  (Placement.run a relaxed a.size (.initial a)).order

namespace Graph

/-- The nodes, every edge pointing forward, the earliest declared first where there is a choice. -/
def order (g : Graph) : Except Fault (List Node) :=
  let indices := g.adjacency.order false
  if indices.length < g.nodes.length then .error (.cycle (g.cycles.head?.getD []))
  else .ok (g.nodesAt indices)

/-- The nodes, where a cycle is broken by placing the earliest node that is left. -/
def relaxedOrder (g : Graph) : List Node :=
  g.nodesAt (g.adjacency.order true)

end Graph

end CallGraph
