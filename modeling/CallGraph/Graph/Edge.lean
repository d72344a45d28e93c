import CallGraph.Dictionary
import CallGraph.Source.Span
import CallGraph.Value

/-!
# Nodes and edges

A `Node` has a name and attributes.  An `Edge` is a call from one node to another; its `Details`
say of which kind the call is, in which stage it is issued, how often, and with which payload.

Source, target and kind identify an edge.  `Edge.order` compares edges by exactly these three, in
this order of importance and by code points, so that two edges compare equal precisely when they
are duplicates of each other.
-/

namespace CallGraph

/-- A node of the graph. -/
structure Node where
  /-- The name that edges refer to. -/
  name : String
  /-- What else is known about the node. -/
  attributes : Dictionary Value := {}
  /-- Where the node is declared. -/
  span : Span := default
deriving DecidableEq

namespace Node

/-- The value of an attribute. -/
def attribute? (n : Node) (key : String) : Option Value := n.attributes.get? key

end Node

/-- The kind of an edge that does not name one. -/
def defaultKind : String := "call"

/-- How a call is made. -/
structure Details where
  /-- The kind of the call. -/
  kind : String := defaultKind
  /-- The stage in which it is issued. -/
  sequence : Nat := 1
  /-- How often it is issued in its stage. -/
  repeats : Nat := 1
  /-- The text that is sent along, and where it was read. -/
  payload : Option (Located String) := none
  /-- Stages are counted from one. -/
  sequence_pos : 0 < sequence := by exact Nat.succ_pos _
  /-- A call is issued at least once. -/
  repeats_pos : 0 < repeats := by exact Nat.succ_pos _
deriving DecidableEq

namespace Details

instance : Inhabited Details := ⟨{}⟩

/-- The details with another kind. -/
def withKind (d : Details) (kind : String) : Details := { d with kind }

/-- The details with another stage.  There is no stage zero: it means the first one. -/
def withSequence (d : Details) (n : Nat) : Details :=
  { d with sequence := max 1 n, sequence_pos := Nat.le_max_left 1 n }

/-- The details with another number of repeats.  Zero repeats mean one. -/
def withRepeats (d : Details) (n : Nat) : Details :=
  { d with repeats := max 1 n, repeats_pos := Nat.le_max_left 1 n }

/-- The details with a payload. -/
def withPayload (d : Details) (payload : Located String) : Details :=
  { d with payload := some payload }

end Details

/-- A call from one node to another. -/
structure Edge where
  /-- The node that calls. -/
  source : String
  /-- The node that is called. -/
  target : String
  /-- How the call is made. -/
  details : Details := default
  /-- Where the call is declared. -/
  span : Span := default
deriving DecidableEq

namespace Edge

/-- The kind of the call. -/
def kind (e : Edge) : String := e.details.kind

/-- What identifies the edge. -/
def key (e : Edge) : String × String × String := (e.source, e.target, e.kind)

/-- Compares edges by source, then by target, then by kind. -/
def order (a b : Edge) : Ordering :=
  ((compare a.source b.source).then (compare a.target b.target)).then (compare a.kind b.kind)

/-- Whether the first edge comes strictly before the second. -/
def precedes (a b : Edge) : Bool := a.order b == .lt

/-- Whether the edges are duplicates of each other. -/
def duplicates (a b : Edge) : Bool := a.order b == .eq

/-- The edges in canonical order; duplicates keep their order. -/
def sort (edges : List Edge) : List Edge :=
  edges.mergeSort fun a b => a.order b != .gt

end Edge

end CallGraph
