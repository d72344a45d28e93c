import CallGraph.Diagnostic.Fault
import CallGraph.Graph.Edge

/-!
# Graphs

A `Graph` holds nodes in order of declaration, edges in canonical order, and settings in order of
first assignment.  It grows by three operations, each of which answers and leaves a graph:

* `Graph.insertNode` refuses a second node of the same name;
* `Graph.insertEdge` refuses an edge whose ends are not both declared, and a duplicate;
* `Graph.assign` binds a setting and tells what it was bound to before.

`Graph.WellFormed` says what the operations maintain: names are unique, edges are strictly
ascending, and their ends are declared.
-/

namespace CallGraph

/-- Nodes, calls between them, and settings. -/
structure Graph where
  /-- The nodes in order of declaration. -/
  nodes : List Node := []
  /-- The edges in canonical order. -/
  edges : List Edge := []
  /-- The settings in order of first assignment. -/
  settings : Dictionary (Located Value) := {}
deriving DecidableEq

/-- Inserts an edge behind all edges that precede it, or finds its duplicate. -/
def insertOrdered (e : Edge) : List Edge → Except Edge (List Edge)
  | [] => .ok [e]
  | f :: rest =>
    match e.order f with
    | .lt => .ok (e :: f :: rest)
    | .eq => .error f
    | .gt => (insertOrdered e rest).map (f :: ·)

namespace Graph

instance : Inhabited Graph := ⟨{}⟩

/-- The node of a name. -/
def node? (g : Graph) (name : String) : Option Node :=
  g.nodes.find? fun n => n.name = name

/-- Whether a node of this name is declared. -/
def contains (g : Graph) (name : String) : Bool := (g.node? name).isSome

/-- The value of a setting. -/
def setting? (g : Graph) (key : String) : Option Value :=
  (g.settings.get? key).map Located.value

/-- The ends of an edge that are not declared, the source first, each name once. -/
def missingEnds (g : Graph) (e : Edge) : List String :=
  let ends := if e.source = e.target then [e.source] else [e.source, e.target]
  ends.filter fun name => !g.contains name

/-- Adds a node behind the others, unless its name is taken. -/
def insertNode (g : Graph) (n : Node) : Except Fault Unit × Graph :=
  match g.node? n.name with
  | some first => (.error (.duplicateDeclaration n.name first.span), g)
  | none => (.ok (), { g with nodes := g.nodes ++ [n] })

/-- Adds an edge at its canonical place, unless an end of it is missing or it is a duplicate. -/
def insertEdge (g : Graph) (e : Edge) : Except Fault Unit × Graph :=
  match g.missingEnds e with
  | name :: _ => (.error (.unresolvedReference name), g)
  | [] =>
    match insertOrdered e g.edges with
    | .error first => (.error (.duplicateEdge e.source e.target e.kind first.span), g)
    | .ok edges => (.ok (), { g with edges })

/-- Binds a setting; the binding that it replaces, if any, is returned beside the graph. -/
def assign (g : Graph) (key : String) (value : Located Value) : Option (Located Value) × Graph :=
  (g.settings.get? key, { g with settings := g.settings.insert key value })

/-- The edges that leave a node.  Since the edges are ordered by source first, they stand
together. -/
def edgesFrom (g : Graph) (name : String) : List Edge :=
  (g.edges.dropWhile fun e => e.source < name).takeWhile fun e => e.source = name

/-- The edges that enter a node. -/
def edgesTo (g : Graph) (name : String) : List Edge :=
  g.edges.filter fun e => e.target = name

/-- What the operations maintain. -/
structure WellFormed (g : Graph) : Prop where
  /-- No two nodes share a name. -/
  names_nodup : (g.nodes.map Node.name).Nodup
  /-- The edges are strictly ascending. -/
  edges_ascending : g.edges.Pairwise fun a b => a.order b = .lt
  /-- Both ends of an edge are declared. -/
  ends_declared : ∀ e ∈ g.edges, g.contains e.source ∧ g.contains e.target

end Graph

end CallGraph
