import CallGraph.Proofs.Graph.Parts

/-!
# The cycles of a graph

Names that call each other, directly or by way of others, form the strongly connected parts of a
graph.

* `Graph.Connected`, `Graph.Cyclic` — the parts, and those that contain a cycle;
* `Graph.Circle` — a circle through the earliest node of its part;
* `Graph.WellFormed.circle` — what the adjacency calls a circle is one between names;
* `cycles_show_parts` — **the cycles** are circles, one for each part that contains a cycle, in order
  of declaration.
-/

namespace CallGraph

open Relation

namespace Graph

variable {g : Graph} {name root : String} {path : List String} {i j : Nat}

/-! ### Parts -/

/-- Each name leads to the other: they belong to the same part. -/
def Connected (g : Graph) (a b : String) : Prop :=
  ReflTransGen g.Calls a b ∧ ReflTransGen g.Calls b a

/-- The part of the name contains a cycle: it has another member, or the name calls itself. -/
def Cyclic (g : Graph) (name : String) : Prop :=
  (∃ other, other ≠ name ∧ g.Connected name other) ∨ g.Calls name name

theorem Connected.symm {a b : String} (h : g.Connected a b) : g.Connected b a := ⟨h.2, h.1⟩

theorem Connected.trans {a b c : String} (h : g.Connected a b) (h' : g.Connected b c) :
    g.Connected a c :=
  ⟨h.1.trans h'.1, h'.2.trans h.2⟩

/-- A part contains a cycle if its members lead back to themselves. -/
theorem cyclic_iff : g.Cyclic name ↔ TransGen g.Calls name name := by
  constructor
  · rintro (⟨other, hne, hforth, hback⟩ | hself)
    · rcases reflTransGen_iff_eq_or_transGen.1 hforth with rfl | hforth
      · exact absurd rfl hne
      · exact hforth.trans_left hback
    · exact .single hself
  · intro hcycle
    obtain ⟨other, hcalls, hback⟩ := TransGen.head'_iff.1 hcycle
    by_cases hother : other = name
    · exact .inr (hother ▸ hcalls)
    · exact .inl ⟨other, hother, .single hcalls, hback⟩

/-- All members of a part lie on cycles if one does. -/
theorem Connected.transGen {a b : String} (h : g.Connected a b) (ha : TransGen g.Calls a a) :
    TransGen g.Calls a b ∧ TransGen g.Calls b a :=
  ⟨ha.trans_left h.1, TransGen.trans_right h.2 ha⟩

theorem WellFormed.bounded (h : g.WellFormed) : g.adjacency.Bounded := by
  intro i j hleads
  rw [size_adjacency]
  exact (h.leads_iff.1 hleads).2.1

theorem WellFormed.mem_of_cyclic (h : g.WellFormed) (hcyclic : TransGen g.Calls name name) :
    name ∈ g.names := by
  obtain ⟨other, ⟨e, he, rfl, -⟩, -⟩ := TransGen.head'_iff.1 hcyclic
  exact h.source_mem he

theorem WellFormed.linked_iff (h : g.WellFormed) :
    g.adjacency.Linked i j ↔ i < g.nodes.length ∧ j < g.nodes.length ∧
      TransGen g.Calls (g.nameAt i) (g.nameAt j) ∧ TransGen g.Calls (g.nameAt j) (g.nameAt i) := by
  unfold Adjacency.Linked
  rw [h.transGen_leads_iff, h.transGen_leads_iff]
  constructor
  · rintro ⟨⟨hi, hj, hforth⟩, -, -, hback⟩
    exact ⟨hi, hj, hforth, hback⟩
  · rintro ⟨hi, hj, hforth, hback⟩
    exact ⟨⟨hi, hj, hforth⟩, hj, hi, hback⟩

theorem WellFormed.connected_nameAt (h : g.WellFormed) (hlinked : g.adjacency.Linked i j) :
    g.Connected (g.nameAt i) (g.nameAt j) := by
  obtain ⟨-, -, hforth, hback⟩ := h.linked_iff.1 hlinked
  exact ⟨hforth.to_reflTransGen, hback.to_reflTransGen⟩

/-- The earliest name of a part that contains a cycle. -/
def Root (g : Graph) (root : String) : Prop :=
  g.Cyclic root ∧ ∀ name, g.Connected root name → position g.nodes root ≤ position g.nodes name

theorem WellFormed.root_nameAt (h : g.WellFormed) (hroot : g.adjacency.Root i) :
    g.Root (g.nameAt i) := by
  obtain ⟨hi, -, hcycle, -⟩ := h.linked_iff.1 hroot.1
  refine ⟨cyclic_iff.2 hcycle, fun name hname => ?_⟩
  obtain ⟨hforth, hback⟩ := hname.transGen hcycle
  have hmem := h.mem_of_cyclic (hback.trans hforth)
  rw [h.position_nameAt hi]
  refine hroot.2 _ (h.linked_iff.2 ⟨hi, position_lt_iff.2 hmem, ?_⟩)
  rw [nameAt_position hmem]
  exact ⟨hforth, hback⟩

theorem WellFormed.root_position (h : g.WellFormed) (hroot : g.Root root) :
    g.adjacency.Root (position g.nodes root) := by
  have hcycle := cyclic_iff.1 hroot.1
  have hmem := h.mem_of_cyclic hcycle
  have hlt := position_lt_iff.2 hmem
  refine ⟨h.linked_iff.2 ⟨hlt, hlt, ?_⟩, fun j hj => ?_⟩
  · rw [nameAt_position hmem]
    exact ⟨hcycle, hcycle⟩
  · have hconnected := h.connected_nameAt hj
    rw [nameAt_position hmem] at hconnected
    have hle := hroot.2 _ hconnected
    rwa [h.position_nameAt (h.linked_iff.1 hj).2.1] at hle

/-- Names at the same position are the same. -/
theorem position_injective {a b : String} (ha : a ∈ g.names) (hb : b ∈ g.names)
    (heq : position g.nodes a = position g.nodes b) : a = b := by
  rw [← nameAt_position ha, heq, nameAt_position hb]

/-- A part has one root. -/
theorem WellFormed.root_unique (h : g.WellFormed) {other : String} (hroot : g.Root root)
    (hother : g.Root other) (hconnected : g.Connected root other) : root = other :=
  position_injective (h.mem_of_cyclic (cyclic_iff.1 hroot.1))
    (h.mem_of_cyclic (cyclic_iff.1 hother.1))
    (Nat.le_antisymm (hroot.2 other hconnected) (hother.2 root hconnected.symm))

/-- A part that contains a cycle has a root. -/
theorem WellFormed.exists_root (h : g.WellFormed) (hcyclic : g.Cyclic name) :
    ∃ root, g.Root root ∧ g.Connected name root := by
  have hcycle := cyclic_iff.1 hcyclic
  have hmem := h.mem_of_cyclic hcycle
  have hlt := position_lt_iff.2 hmem
  have hself : g.adjacency.Linked (position g.nodes name) (position g.nodes name) := by
    refine h.linked_iff.2 ⟨hlt, hlt, ?_⟩
    rw [nameAt_position hmem]
    exact ⟨hcycle, hcycle⟩
  obtain ⟨i, hroot, hi⟩ := hself.exists_root h.bounded
  have hconnected := h.connected_nameAt hi
  rw [nameAt_position hmem] at hconnected
  exact ⟨_, h.root_nameAt hroot, hconnected⟩

/-! ### Circles -/

/-- A circle through the earliest name of its part. -/
structure Circle (g : Graph) (root : String) (path : List String) : Prop where
  /-- The circle starts and ends at the root; in between it stays in the part of the root and meets
  no name twice. -/
  shape : ∃ interior, path = root :: interior ++ [root] ∧ (root :: interior).Nodup ∧
    ∀ name ∈ interior, g.Connected root name
  /-- The circle goes along edges. -/
  chain : path.IsChain g.Calls
  /-- The edge that closes the circle is found: it leads from the last name but one to the last. -/
  closing : ∃ e ∈ g.edges, g.closingEdge? path = some e ∧ [e.source, e.target] <:+ path

/-- The last edge of a path is found. -/
theorem WellFormed.exists_closingEdge (h : g.WellFormed) {front : List String}
    {previous last : String} (hcalls : g.Calls previous last) :
    ∃ e ∈ g.edges, g.closingEdge? (front ++ [previous, last]) = some e ∧
      e.source = previous ∧ e.target = last := by
  have hclosing : g.closingEdge? (front ++ [previous, last]) =
      (g.edges.filter fun e => e.source = previous).find? fun e => e.target = last := by
    rw [closingEdge?, List.reverse_append, ← h.edgesFrom_eq]
    rfl
  rw [hclosing]
  cases hfind : (g.edges.filter fun e => e.source = previous).find? fun e => e.target = last with
  | none =>
    obtain ⟨e, he, hsource, htarget⟩ := hcalls
    rw [List.find?_eq_none] at hfind
    exact absurd (decide_eq_true htarget) (hfind e (List.mem_filter.2 ⟨he, decide_eq_true hsource⟩))
  | some e =>
    have htarget := List.find?_some hfind
    obtain ⟨he, hsource⟩ := List.mem_filter.1 (List.mem_of_find?_eq_some hfind)
    exact ⟨e, he, rfl, of_decide_eq_true hsource, of_decide_eq_true htarget⟩

/-- The names along a circle are a circle. -/
theorem WellFormed.circle (h : g.WellFormed) (hi : i < g.nodes.length) {path : List Nat}
    (hcircle : g.adjacency.Circle i path) : g.Circle (g.nameAt i) (path.map g.nameAt) := by
  obtain ⟨⟨interior, rfl, hnodup, hinterior⟩, hchain⟩ := hcircle
  have hlt : ∀ x ∈ i :: interior, x < g.nodes.length := by
    intro x hx
    rcases List.mem_cons.1 hx with rfl | hx
    · exact hi
    · exact (h.linked_iff.1 (hinterior x hx)).2.1
  have hcalls : ((i :: interior ++ [i]).map g.nameAt).IsChain g.Calls := by
    rw [List.isChain_map]
    exact hchain.imp fun x y hleads => (h.leads_iff.1 hleads).2.2
  refine ⟨⟨interior.map g.nameAt, ?_, ?_, fun name hname => ?_⟩, hcalls, ?_⟩
  · rw [List.map_append, List.map_cons, List.map_singleton]
  · rw [← List.map_cons]
    refine hnodup.map_on fun x hx y hy hxy => ?_
    rw [← h.position_nameAt (hlt x hx), hxy, h.position_nameAt (hlt y hy)]
  · obtain ⟨x, hx, rfl⟩ := List.mem_map.1 hname
    exact h.connected_nameAt (hinterior x hx)
  · -- The circle without its end is not empty, and its last name calls the root.
    obtain ⟨front, previous, hfront⟩ : ∃ front previous, i :: interior = front ++ [previous] :=
      ⟨_, _, (List.dropLast_append_getLast (List.cons_ne_nil i interior)).symm⟩
    have hpath : (i :: interior ++ [i]).map g.nameAt =
        front.map g.nameAt ++ [g.nameAt previous, g.nameAt i] := by
      rw [hfront, List.append_assoc, List.map_append]
      rfl
    rw [hpath] at hcalls ⊢
    have hlast : g.Calls (g.nameAt previous) (g.nameAt i) :=
      List.isChain_pair.1 (List.isChain_append.1 hcalls).2.1
    obtain ⟨e, he, hclosing, hsource, htarget⟩ := h.exists_closingEdge hlast
    refine ⟨e, he, hclosing, ?_⟩
    rw [hsource, htarget]
    exact List.suffix_append _ _

/-! ### All cycles -/

theorem Circle.head? (h : g.Circle root path) : path.head? = some root := by
  obtain ⟨interior, rfl, -⟩ := h.shape
  rfl

/-- The cycles go through the roots one after the other. -/
theorem WellFormed.cycles_eq (h : g.WellFormed) :
    ∃ circle : Nat → List String, g.cycles = g.adjacency.roots.map circle ∧
      ∀ i ∈ g.adjacency.roots, i < g.nodes.length ∧ g.Root (g.nameAt i) ∧
        g.Circle (g.nameAt i) (circle i) := by
  have hcycles := Adjacency.cyclesOf_eq h.bounded (Adjacency.partition_parts h.bounded)
  refine ⟨_, (congrArg (List.map _) hcycles).trans (List.map_map ..), fun i hi => ?_⟩
  have hroot := (Adjacency.mem_roots h.bounded).1 hi
  have hlt : i < g.nodes.length := (h.linked_iff.1 hroot.1).1
  exact ⟨hlt, h.root_nameAt hroot, h.circle hlt (hroot.circleAt h.bounded)⟩

theorem WellFormed.circle_of_mem_cycles (h : g.WellFormed) (hpath : path ∈ g.cycles) :
    ∃ root, g.Root root ∧ g.Circle root path := by
  obtain ⟨circle, hcycles, hcircles⟩ := h.cycles_eq
  rw [hcycles] at hpath
  obtain ⟨i, hi, rfl⟩ := List.mem_map.1 hpath
  exact ⟨_, (hcircles i hi).2⟩

/-- A part that contains a cycle is shown. -/
theorem WellFormed.exists_cycle (h : g.WellFormed) (hcyclic : g.Cyclic name) :
    ∃ path ∈ g.cycles, ∃ root, g.Root root ∧ g.Circle root path ∧ g.Connected name root := by
  obtain ⟨root, hroot, hconnected⟩ := h.exists_root hcyclic
  obtain ⟨circle, hcycles, hcircles⟩ := h.cycles_eq
  have hmem : position g.nodes root ∈ g.adjacency.roots :=
    (Adjacency.mem_roots h.bounded).2 (h.root_position hroot)
  have hcircle := (hcircles _ hmem).2.2
  rw [nameAt_position (h.mem_of_cyclic (cyclic_iff.1 hroot.1))] at hcircle
  refine ⟨circle (position g.nodes root), ?_, root, hroot, hcircle, hconnected⟩
  rw [hcycles]
  exact List.mem_map_of_mem hmem

/-- No cycles are shown precisely if no name leads back to itself. -/
theorem WellFormed.cycles_eq_nil_iff (h : g.WellFormed) :
    g.cycles = [] ↔ ∀ name, ¬TransGen g.Calls name name := by
  constructor
  · intro hcycles name hcycle
    obtain ⟨path, hpath, -⟩ := h.exists_cycle (cyclic_iff.2 hcycle)
    rw [hcycles] at hpath
    exact List.not_mem_nil hpath
  · intro hacyclic
    refine List.eq_nil_iff_forall_not_mem.2 fun path hpath => ?_
    obtain ⟨root, hroot, -⟩ := h.circle_of_mem_cycles hpath
    exact hacyclic root (cyclic_iff.1 hroot.1)

/-- **The cycles of a graph** that any calls have built.

* Each of them is a circle through the earliest name of a part that contains a cycle.
* Each part that contains a cycle is shown by exactly one of them.
* They are ordered by the positions of their first names.
* They are the same whatever partition into strongly connected parts is searched, and in whatever
  order it lists the parts and their nodes.
* In each part that contains a cycle the search finds a way back to its earliest node, so that the
  members of the part never stand in for a circle. -/
theorem cycles_show_parts (changes : List Change) :
    let g := built changes
    (∀ path ∈ g.cycles, ∃ root, g.Root root ∧ g.Circle root path) ∧
      (∀ name, g.Cyclic name →
        ∃! path, path ∈ g.cycles ∧ ∃ root, path.head? = some root ∧ g.Connected name root) ∧
      (g.cycles.Pairwise fun path path' => ∃ root root', path.head? = some root ∧
        path'.head? = some root' ∧ position g.nodes root < position g.nodes root') ∧
      g.adjacency.Partition g.adjacency.parts ∧
      ∀ parts, g.adjacency.Partition parts → g.cyclesOf parts = g.cycles ∧
        ∀ part ∈ parts, g.adjacency.isCyclic part = true →
          ∃ start, Adjacency.earliest? part = some start ∧
            (g.adjacency.wayBack? part start).isSome := by
  intro g
  have h : g.WellFormed := wellFormed_built changes
  obtain ⟨circle, hcycles, hcircles⟩ := h.cycles_eq
  have hordered : g.cycles.Pairwise fun path path' => ∃ root root', path.head? = some root ∧
      path'.head? = some root' ∧ position g.nodes root < position g.nodes root' := by
    rw [hcycles, List.pairwise_map]
    refine g.adjacency.pairwise_roots.imp_of_mem fun {i j} hi hj hij => ?_
    obtain ⟨hi, -, hcircle⟩ := hcircles i hi
    obtain ⟨hj, -, hcircle'⟩ := hcircles j hj
    refine ⟨_, _, hcircle.head?, hcircle'.head?, ?_⟩
    rwa [h.position_nameAt hi, h.position_nameAt hj]
  have hheads : (g.cycles.map List.head?).Nodup := by
    refine List.pairwise_map.2 (hordered.imp ?_)
    rintro path path' ⟨root, root', hhead, hhead', hlt⟩ heq
    obtain rfl := Option.some.inj (hhead.symm.trans (heq.trans hhead'))
    exact Nat.lt_irrefl _ hlt
  have hlisted := Adjacency.partition_parts h.bounded
  refine ⟨fun path => h.circle_of_mem_cycles, fun name hcyclic => ?_, hordered, hlisted,
    fun parts hparts => ⟨?_, fun part hpart hcyclic => ?_⟩⟩
  · obtain ⟨path, hpath, root, hroot, hcircle, hconnected⟩ := h.exists_cycle hcyclic
    refine ⟨path, ⟨hpath, root, hcircle.head?, hconnected⟩, ?_⟩
    rintro path' ⟨hpath', root', hhead', hconnected'⟩
    -- Both circles start at the root of the part.
    have hsame : root' = root := by
      obtain ⟨other, hother, hcircle'⟩ := h.circle_of_mem_cycles hpath'
      obtain rfl := Option.some.inj (hhead'.symm.trans hcircle'.head?)
      exact h.root_unique hother hroot (hconnected'.symm.trans hconnected)
    refine List.inj_on_of_nodup_map hheads hpath' hpath ?_
    rw [hhead', hcircle.head?, hsame]
  · rw [cycles, cyclesOf, cyclesOf, Adjacency.cyclesOf_eq h.bounded hparts,
      Adjacency.cyclesOf_eq h.bounded hlisted]
  · obtain ⟨start, -, hfirst, hway, -⟩ := hparts.root h.bounded hpart hcyclic
    exact ⟨start, hfirst, hway⟩

end Graph

end CallGraph
