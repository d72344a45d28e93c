import CallGraph.Graph.Adjacency

/-!
# Cycles

Two nodes that can reach each other belong to the same strongly connected part of the graph.  For
each part that contains a cycle, `Graph.cycles` gives one: it starts and ends at the part's
earliest node and follows the edges in canonical order.

* `Adjacency.reach` — the nodes that can be reached by one edge or more;
* `Adjacency.parts` — the strongly connected parts;
* `Adjacency.wayBack?` — the first way back to a node that a depth-first search finds;
* `Adjacency.cyclesOf` — one cycle for each of the given parts that contains one, in order, however
  the parts and the nodes in them are listed.
-/

namespace CallGraph

namespace Adjacency

/-- The nodes seen so far and those that can be reached from node `i` past them; `depth` bounds the
length of the paths followed. -/
def explore (a : Adjacency) : Nat → Nat → List Nat → List Nat
  | 0, _, seen => seen
  | depth + 1, i, seen =>
    (a.successors i).foldl
      (fun seen j => if seen.contains j then seen else explore a depth j (j :: seen)) seen

/-- The nodes that can be reached from a node by one edge or more. -/
def reach (a : Adjacency) (i : Nat) : List Nat :=
  a.explore (a.size + 1) i []

/-- For each node the nodes that can be reached from it. -/
def reachTable (a : Adjacency) : List (List Nat) :=
  (List.range a.size).map a.reach

/-- The part of node `i`: the node itself, and those that it reaches and that reach it, in ascending
order. -/
def part (a : Adjacency) (table : List (List Nat)) (i : Nat) : List Nat :=
  (List.range a.size).filter fun j =>
    j = i || ((table.getD i []).contains j && (table.getD j []).contains i)

/-- The earliest of some nodes. -/
def earliest? (members : List Nat) : Option Nat :=
  members.find? fun i => members.all fun j => i ≤ j

/-- The strongly connected parts, each as the part of its earliest node. -/
def parts (a : Adjacency) : List (List Nat) :=
  let partOf := a.part a.reachTable
  ((List.range a.size).filter fun i => earliest? (partOf i) = some i).map partOf

/-- A depth-first search for the way back to a node. -/
structure Search where
  /-- The nodes entered so far. -/
  seen : List Nat
  /-- The way found, last node first. -/
  found : Option (List Nat) := none
deriving DecidableEq

/-- Follows the edges of node `i` in order, staying inside `members` and entering each node once,
until one leads to `start`.  The trail lists the nodes from `i` back to `start`, and `depth` bounds
its growth. -/
def seek (a : Adjacency) (members : List Nat) (start : Nat) :
    Nat → List Nat → Nat → Search → Search
  | 0, _, _, s => s
  | depth + 1, trail, i, s =>
    (a.successors i).foldl
      (fun s j =>
        if s.found.isSome then s
        else if j = start then { s with found := some (start :: trail) }
        else if members.contains j && !s.seen.contains j then
          seek a members start depth (j :: trail) j { s with seen := j :: s.seen }
        else s)
      s

/-- The way back to `start` inside `members` that the search finds, the last node first. -/
def wayBack? (a : Adjacency) (members : List Nat) (start : Nat) : Option (List Nat) :=
  (a.seek members start (members.length + 1) [start] start ⟨[start], none⟩).found

/-- A cycle through the earliest of the members; the members themselves if there is none. -/
def cyclePath (a : Adjacency) (members : List Nat) : List Nat :=
  match earliest? members with
  | none => []
  | some start =>
    match a.wayBack? members start with
    | some way => way.reverse
    | none => members.mergeSort fun i j => i ≤ j

/-- Whether a part contains a cycle: it has several members, or its only member calls itself. -/
def isCyclic (a : Adjacency) (members : List Nat) : Bool :=
  1 < members.length || members.head?.any fun i => (a.successors i).contains i

/-- Whether a path may stand before another: in the order of the numbers along them. -/
def pathBefore (path other : List Nat) : Bool := (List.compareLex compare path other).isLE

/-- Inserts a path before the first one that it may stand before. -/
def insertPath (path : List Nat) : List (List Nat) → List (List Nat)
  | [] => [path]
  | other :: rest =>
    if pathBefore path other then path :: other :: rest else other :: insertPath path rest

/-- One cycle for each of the parts that contains one, in the order of the numbers along them. -/
def cyclesOf (a : Adjacency) (parts : List (List Nat)) : List (List Nat) :=
  ((parts.filter a.isCyclic).map a.cyclePath).foldr insertPath []

end Adjacency

namespace Graph

/-- One cycle for each of the parts that contains one, as names. -/
def cyclesOf (g : Graph) (parts : List (List Nat)) : List (List String) :=
  (g.adjacency.cyclesOf parts).map fun path => path.map g.nameAt

/-- One cycle for each strongly connected part of the graph that contains one. -/
def cycles (g : Graph) : List (List String) := g.cyclesOf g.adjacency.parts

/-- The first edge from the last node but one of a path to the last. -/
def closingEdge? (g : Graph) (path : List String) : Option Edge :=
  match path.reverse with
  | last :: previous :: _ => (g.edgesFrom previous).find? fun e => e.target = last
  | _ => none

end Graph

end CallGraph
