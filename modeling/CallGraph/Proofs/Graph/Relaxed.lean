import CallGraph.Proofs.Graph.Schedule

/-!
# Orders that break cycles

Where no node is ready, the relaxed order goes on with the earliest node left, whether it is on a
cycle or only behind one.

* `Graph.KeepsParts` — the edges between different parts point forward;
* `Graph.WaitsWithin` — a node waits only for nodes of its own part;
* `Graph.Schedule.keepsParts_iff` — **edges between parts are kept** precisely if each node placed
  to break a cycle waits only for its own part;
* `relaxed_order_keeps_parts_iff` — the relaxed order: what it places next, and when it keeps the
  edges between parts;
* `relaxed_order_breaks_edge` — there is a graph where it does not.
-/

namespace CallGraph

open Relation

namespace Graph

variable {g : Graph} {placed order rest : List Node} {n : Node} {e : Edge}

/-- The source of each edge between different parts comes before its target. -/
def KeepsParts (g : Graph) (order : List Node) : Prop :=
  ∀ e ∈ g.edges, ¬g.Connected e.source e.target → position order e.source < position order e.target

/-- All edges to the node from nodes not placed come from its own part. -/
def WaitsWithin (g : Graph) (placed : List Node) (n : Node) : Prop :=
  ∀ e ∈ g.edges, e.target = n.name → e.source ∉ placed.map Node.name →
    g.Connected e.source e.target

/-- Each node comes at some point of a schedule that leaves none. -/
theorem Schedule.exists_split (hg : g.WellFormed) (h : g.Schedule true order) (he : e ∈ g.edges) :
    ∃ placed n rest, order = placed ++ n :: rest ∧ e.target = n.name := by
  obtain ⟨n, hn, htarget⟩ := List.mem_map.1 (hg.target_mem he)
  obtain ⟨placed, rest, hsplit⟩ := List.append_of_mem ((h.perm hg h.not_left).mem_iff.2 hn)
  exact ⟨placed, n, rest, hsplit, htarget.symm⟩

/-- An edge points forward precisely if its source is placed when its target comes. -/
theorem Schedule.forward_iff (hg : g.WellFormed) (h : g.Schedule true order)
    (hsplit : order = placed ++ n :: rest) (htarget : e.target = n.name) :
    position order e.source < position order e.target ↔ e.source ∈ placed.map Node.name := by
  have hnames := h.names_nodup hg
  rw [hsplit] at hnames ⊢
  rw [htarget, position_lt_split_iff hnames]

/-- **The edges between parts** are kept precisely if each node placed while none is ready waits only
for its own part. -/
theorem Schedule.keepsParts_iff (hg : g.WellFormed) (h : g.Schedule true order) :
    g.KeepsParts order ↔ ∀ placed n rest, order = placed ++ n :: rest →
      (∀ m, ¬g.Ready placed m) → g.WaitsWithin placed n := by
  constructor
  · intro hkeeps placed n rest hsplit _ e he htarget hnew
    refine Classical.byContradiction fun hparts => hnew ?_
    exact (h.forward_iff hg hsplit htarget).1 (hkeeps e he hparts)
  · intro hwaits e he hparts
    obtain ⟨placed, n, rest, hsplit, htarget⟩ := h.exists_split hg he
    rcases h.next placed n rest hsplit with hready | ⟨-, hnone, -⟩
    · exact h.forward hg he hsplit htarget hready.1
    · refine (h.forward_iff hg hsplit htarget).2 (Classical.byContradiction fun hnew => hparts ?_)
      exact hwaits placed n rest hsplit hnone e he htarget hnew

/-- A cycle behind which the declarations follow the edges is broken within its part. -/
theorem Schedule.waitsWithin (hg : g.WellFormed) (h : g.Schedule true order)
    (hdeclared : ∀ e ∈ g.edges, ¬g.Connected e.source e.target → g.DependsOnCycle e.source →
      position g.nodes e.source < position g.nodes e.target)
    (hsplit : order = placed ++ n :: rest) (hnone : ∀ m, ¬g.Ready placed m) :
    g.WaitsWithin placed n := by
  intro e he htarget hnew
  refine Classical.byContradiction fun hparts => ?_
  have hearliest : g.Earliest (g.Left placed) n :=
    ((h.next placed n rest hsplit).resolve_left fun hready => hnone n hready.1).2.2
  -- The source is left too, so that it cannot be declared before the target.
  obtain ⟨m, hm, hsource⟩ := List.mem_map.1 (hg.source_mem he)
  have hleft : g.Left placed m := ⟨hm, fun hplaced => hnew (hsource ▸ List.mem_map_of_mem hplaced)⟩
  have hcycle : g.DependsOnCycle e.source := hsource ▸ hg.dependsOnCycle hleft hnone
  have hlt := hdeclared e he hparts hcycle
  rw [htarget, ← hsource] at hlt
  exact Nat.lt_irrefl _ (hlt.trans_le (hearliest.2 m hleft))

/-- Edges to nodes that depend on no cycle point forward. -/
theorem Schedule.forward_of_not_dependsOnCycle (hg : g.WellFormed) (h : g.Schedule true order)
    (he : e ∈ g.edges) (hcycle : ¬g.DependsOnCycle e.target) :
    position order e.source < position order e.target := by
  obtain ⟨placed, n, rest, hsplit, htarget⟩ := h.exists_split hg he
  rcases h.next placed n rest hsplit with hready | ⟨-, hnone, hearliest⟩
  · exact h.forward hg he hsplit htarget hready.1
  · rw [htarget] at hcycle
    exact absurd (hg.dependsOnCycle hearliest.1 hnone) hcycle

/-- **The relaxed order of a graph** that any calls have built.

* It has all nodes, each once; each node in it is the earliest declared one of those ready, or, if
  none is ready, of those left.
* It keeps the edges between different parts precisely if each node placed while none is ready waits
  only for nodes of its own part.
* It keeps them if, behind cycles, nodes are declared in the order of these edges.
* It keeps all edges to nodes that depend on no cycle. -/
theorem relaxed_order_keeps_parts_iff (changes : List Change) :
    let g := built changes
    let order := g.relaxedOrder
    order.Perm g.nodes ∧
      (∀ placed n rest, order = placed ++ n :: rest → g.Next true placed n) ∧
      (g.KeepsParts order ↔ ∀ placed n rest, order = placed ++ n :: rest →
        (∀ m, ¬g.Ready placed m) → g.WaitsWithin placed n) ∧
      ((∀ e ∈ g.edges, ¬g.Connected e.source e.target → g.DependsOnCycle e.source →
        position g.nodes e.source < position g.nodes e.target) → g.KeepsParts order) ∧
      ∀ e ∈ g.edges, ¬g.DependsOnCycle e.target →
        position order e.source < position order e.target := by
  intro g order
  have hg : g.WellFormed := wellFormed_built changes
  have h : g.Schedule true order := hg.schedule true
  refine ⟨h.perm hg h.not_left, h.next, h.keepsParts_iff hg, fun hdeclared => ?_,
    fun e he => h.forward_of_not_dependsOnCycle hg he⟩
  exact (h.keepsParts_iff hg).2 fun placed n rest => h.waitsWithin hg hdeclared

/-- A node that is called from a cycle is declared before the members of the cycle. -/
def calledEarly : List Change :=
  [.node { name := "c" }, .node { name := "a" }, .node { name := "b" },
    .edge { source := "a", target := "b" }, .edge { source := "b", target := "a" },
    .edge { source := "a", target := "c" }]

/-- The node called is placed to break a cycle that it is not on. -/
theorem relaxed_order_breaks_edge :
    ¬(built calledEarly).KeepsParts (built calledEarly).relaxedOrder := by
  intro hkeeps
  have hedge : ({ source := "a", target := "c" } : Edge) ∈ (built calledEarly).edges := by decide
  have hleaves : ∀ e ∈ (built calledEarly).edges, e.source ≠ "c" := by decide
  have hparts : ¬(built calledEarly).Connected "a" "c" := by
    rintro ⟨-, hback⟩
    rcases ReflTransGen.cases_head hback with heq | ⟨_, ⟨e, he, hsource, -⟩, -⟩
    · exact absurd heq (by decide)
    · exact hleaves e he hsource
  exact absurd (hkeeps _ hedge hparts) (by decide)

end Graph

end CallGraph
