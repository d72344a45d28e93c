import Mathlib.Data.Set.Finite.List
import Mathlib.Data.Fintype.EquivFin
import CallGraph.Proofs.Graph.Cycle
import CallGraph.Proofs.Graph.Placement

/-!
# Schedules

What the counters decide, told of nodes and edges.

* `Graph.Ready`, `Graph.Next` — the nodes that may come next, and the one that does;
* `Graph.Schedule` — nodes that come one after the other until none can;
* `Graph.WellFormed.schedule` — **both orders** of a graph are schedules;
* `Graph.Schedule.forward` — an edge to a node that was ready points forward;
* `Graph.Schedule.perm` — a schedule that leaves no node has them all;
* `Graph.WellFormed.dependsOnCycle` — a node left while none is ready depends on a cycle.
-/

namespace CallGraph

open Relation

namespace Graph

variable {g : Graph} {placed order rest : List Node} {m n : Node} {name : String} {i : Nat}
  {indices : List Nat} {relaxed : Bool}

/-! ### Nodes and numbers -/

theorem WellFormed.getElem?_eq_some_iff (h : g.WellFormed) :
    g.nodes[i]? = some n ↔ n ∈ g.nodes ∧ position g.nodes n.name = i := by
  constructor
  · intro hi
    obtain ⟨hlt, rfl⟩ := List.getElem?_eq_some_iff.1 hi
    refine ⟨List.getElem_mem hlt, ?_⟩
    rw [← nameAt_eq hlt, h.position_nameAt hlt]
  · rintro ⟨hn, rfl⟩
    have hname : n.name ∈ g.names := List.mem_map_of_mem hn
    have hlt := position_lt_iff.2 hname
    rw [List.getElem?_eq_getElem hlt]
    refine congrArg some (List.inj_on_of_nodup_map h.names_nodup (List.getElem_mem hlt) hn ?_)
    rw [← nameAt_eq hlt, nameAt_position hname]

theorem WellFormed.mem_nodesAt (h : g.WellFormed) :
    n ∈ g.nodesAt indices ↔ n ∈ g.nodes ∧ position g.nodes n.name ∈ indices := by
  unfold nodesAt
  rw [List.mem_filterMap]
  constructor
  · rintro ⟨i, hi, hnode⟩
    obtain ⟨hn, rfl⟩ := h.getElem?_eq_some_iff.1 hnode
    exact ⟨hn, hi⟩
  · rintro ⟨hn, hi⟩
    exact ⟨_, hi, h.getElem?_eq_some_iff.2 ⟨hn, rfl⟩⟩

theorem WellFormed.mem_names_nodesAt (h : g.WellFormed) (hname : name ∈ g.names) :
    name ∈ (g.nodesAt indices).map Node.name ↔ position g.nodes name ∈ indices := by
  rw [List.mem_map]
  constructor
  · rintro ⟨n, hn, rfl⟩
    exact (h.mem_nodesAt.1 hn).2
  · intro hi
    obtain ⟨n, hn, rfl⟩ := List.mem_map.1 hname
    exact ⟨n, h.mem_nodesAt.2 ⟨hn, hi⟩, rfl⟩

theorem nodesAt_concat (hi : g.nodes[i]? = some n) :
    g.nodesAt (indices ++ [i]) = g.nodesAt indices ++ [n] := by
  rw [nodesAt, List.filterMap_append, List.filterMap_cons_some hi]
  rfl

/-- A number that stands for a node. -/
theorem WellFormed.exists_position (h : g.WellFormed) (hi : i < g.nodes.length) :
    ∃ n ∈ g.nodes, position g.nodes n.name = i :=
  ⟨g.nodes[i], h.getElem?_eq_some_iff.1 (List.getElem?_eq_getElem hi)⟩

/-! ### The next node -/

/-- The node is not placed, while the sources of all edges to it are. -/
def Ready (g : Graph) (placed : List Node) (n : Node) : Prop :=
  n ∈ g.nodes ∧ n ∉ placed ∧ ∀ e ∈ g.edges, e.target = n.name → e.source ∈ placed.map Node.name

/-- The node is not placed. -/
def Left (g : Graph) (placed : List Node) (n : Node) : Prop := n ∈ g.nodes ∧ n ∉ placed

/-- Of all nodes with a property, the one declared first. -/
def Earliest (g : Graph) (p : Node → Prop) (n : Node) : Prop :=
  p n ∧ ∀ m, p m → position g.nodes n.name ≤ position g.nodes m.name

/-- The node that comes next: the earliest one that is ready, or, if a cycle may be broken and no
node is ready, the earliest one left. -/
def Next (g : Graph) (relaxed : Bool) (placed : List Node) (n : Node) : Prop :=
  g.Earliest (g.Ready placed) n ∨
    (relaxed = true ∧ (∀ m, ¬g.Ready placed m) ∧ g.Earliest (g.Left placed) n)

theorem WellFormed.free_iff (h : g.WellFormed) (hn : n ∈ g.nodes) :
    g.adjacency.Free indices (position g.nodes n.name) ↔ g.Ready (g.nodesAt indices) n := by
  have hname : n.name ∈ g.names := List.mem_map_of_mem hn
  unfold Adjacency.Free Ready
  rw [size_adjacency, h.mem_nodesAt, and_iff_right (position_lt_iff.2 hname), and_iff_right hn,
    and_iff_right hn]
  refine and_congr_right fun _ => ⟨fun hleads e he htarget => ?_, fun hedges j hj => ?_⟩
  · rw [h.mem_names_nodesAt (h.source_mem he)]
    exact hleads _ (htarget ▸ h.leads_position ⟨e, he, rfl, rfl⟩)
  · obtain ⟨hlt, -, e, he, hsource, htarget⟩ := h.leads_iff.1 hj
    rw [nameAt_position hname] at htarget
    have hmem := hedges e he htarget
    rwa [h.mem_names_nodesAt (h.source_mem he), hsource, h.position_nameAt hlt] at hmem

theorem WellFormed.left_iff (h : g.WellFormed) (hn : n ∈ g.nodes) :
    g.adjacency.Left indices (position g.nodes n.name) ↔ g.Left (g.nodesAt indices) n := by
  have hname : n.name ∈ g.names := List.mem_map_of_mem hn
  unfold Adjacency.Left Left
  rw [size_adjacency, h.mem_nodesAt, and_iff_right (position_lt_iff.2 hname), and_iff_right hn,
    and_iff_right hn]

/-- What holds of all numbers that stand for nodes holds of the numbers of all nodes. -/
theorem WellFormed.forall_position (h : g.WellFormed) {p : Nat → Prop} {q : Node → Prop}
    (hp : ∀ i, p i → i < g.nodes.length) (hq : ∀ m, q m → m ∈ g.nodes)
    (hpq : ∀ m ∈ g.nodes, p (position g.nodes m.name) ↔ q m) (r : Nat → Prop) :
    (∀ i, p i → r i) ↔ ∀ m, q m → r (position g.nodes m.name) := by
  constructor
  · exact fun hall m hm => hall _ ((hpq m (hq m hm)).2 hm)
  · intro hall i hi
    obtain ⟨m, hm, rfl⟩ := h.exists_position (hp i hi)
    exact hall m ((hpq m hm).1 hi)

/-- **The node chosen** by its number comes next. -/
theorem WellFormed.chosen_iff (h : g.WellFormed) (hn : n ∈ g.nodes) :
    g.adjacency.Chosen relaxed indices (position g.nodes n.name) ↔
      g.Next relaxed (g.nodesAt indices) n := by
  have hfree := h.forall_position (p := g.adjacency.Free indices) (q := g.Ready (g.nodesAt indices))
    (fun i hi => size_adjacency g ▸ hi.1) (fun m hm => hm.1) (fun m hm => h.free_iff hm)
  have hleft := h.forall_position (p := g.adjacency.Left indices) (q := g.Left (g.nodesAt indices))
    (fun i hi => size_adjacency g ▸ hi.1) (fun m hm => hm.1) (fun m hm => h.left_iff hm)
  unfold Adjacency.Chosen Next Earliest
  rw [h.free_iff hn, h.left_iff hn, hfree, hfree, hleft]

/-! ### One node after the other -/

/-- Nodes that come one after the other, until none can. -/
structure Schedule (g : Graph) (relaxed : Bool) (order : List Node) : Prop where
  /-- No node comes twice. -/
  nodup : order.Nodup
  /-- Only nodes of the graph come. -/
  subset : ∀ n ∈ order, n ∈ g.nodes
  /-- Each node comes next behind those before it. -/
  next : ∀ placed n rest, order = placed ++ n :: rest → g.Next relaxed placed n
  /-- In the end no node comes next. -/
  ends : ∀ n, ¬g.Next relaxed order n

theorem Next.mem (h : g.Next relaxed placed n) : n ∈ g.nodes := by
  rcases h with ⟨⟨hn, -⟩, -⟩ | ⟨-, -, ⟨hn, -⟩, -⟩ <;> exact hn

/-- A split of a list with one more element is behind the last one, or a split of the list. -/
theorem concat_eq_append_cons {α : Type} {xs ys zs : List α} {x y : α}
    (h : xs ++ [x] = ys ++ y :: zs) :
    (xs = ys ∧ x = y) ∨ ∃ zs', xs = ys ++ y :: zs' := by
  rcases List.eq_nil_or_concat zs with rfl | ⟨zs', z, rfl⟩
  · obtain ⟨hxs, hx⟩ := List.append_inj' h rfl
    exact .inl ⟨hxs, (List.cons.inj hx).1⟩
  · rw [List.concat_eq_append, ← List.cons_append, ← List.append_assoc] at h
    exact .inr ⟨zs', (List.append_inj' h rfl).1⟩

/-- Numbers chosen one after the other stand for nodes that come one after the other. -/
theorem WellFormed.next_of_scheduled (h : g.WellFormed)
    (hscheduled : g.adjacency.Scheduled relaxed indices) :
    ∀ placed n rest, g.nodesAt indices = placed ++ n :: rest → g.Next relaxed placed n := by
  induction hscheduled with
  | nil => exact fun placed n rest hsplit => absurd hsplit (by simp [nodesAt])
  | @concat indices i _ hchosen ih =>
    obtain ⟨m, hm, rfl⟩ := h.exists_position (size_adjacency g ▸ hchosen.left.1)
    rw [nodesAt_concat (h.getElem?_eq_some_iff.2 ⟨hm, rfl⟩)]
    intro placed n rest hsplit
    rcases concat_eq_append_cons hsplit with ⟨rfl, rfl⟩ | ⟨rest', hsplit⟩
    · exact (h.chosen_iff hm).1 hchosen
    · exact ih placed n rest' hsplit

/-- **Both orders** are schedules. -/
theorem WellFormed.schedule (h : g.WellFormed) (relaxed : Bool) :
    g.Schedule relaxed (g.nodesAt (g.adjacency.order relaxed)) := by
  obtain ⟨hnodup, -, hscheduled, hnone⟩ := Adjacency.order_scheduled h.bounded relaxed
  exact {
    nodup := hnodup.filterMap fun i j n hi hj => by
      rw [← (h.getElem?_eq_some_iff.1 hi).2, ← (h.getElem?_eq_some_iff.1 hj).2]
    subset := fun n hn => (h.mem_nodesAt.1 hn).1
    next := h.next_of_scheduled hscheduled
    ends := fun n hn => hnone _ ((h.chosen_iff hn.mem).2 hn) }

/-- Of nodes with a property one is the earliest. -/
theorem exists_earliest (g : Graph) {p : Node → Prop} (h : ∃ n, p n) : ∃ n, g.Earliest p n := by
  classical
  have hexists : ∃ i n, p n ∧ position g.nodes n.name = i := by
    obtain ⟨n, hn⟩ := h
    exact ⟨_, n, hn, rfl⟩
  obtain ⟨n, hn, hposition⟩ := Nat.find_spec hexists
  refine ⟨n, hn, fun m hm => ?_⟩
  rw [hposition]
  exact Nat.find_min' hexists ⟨m, hm, rfl⟩

/-- In the end no node is ready. -/
theorem Schedule.not_ready (h : g.Schedule relaxed order) (m : Node) : ¬g.Ready order m := by
  intro hm
  obtain ⟨n, hn⟩ := g.exists_earliest ⟨m, hm⟩
  exact h.ends n (.inl hn)

/-- A schedule that leaves no node has them all. -/
theorem Schedule.perm (h : g.Schedule relaxed order) (hg : g.WellFormed)
    (hall : ∀ n, ¬g.Left order n) : order.Perm g.nodes := by
  have hnodes : g.nodes.Nodup := List.Nodup.of_map _ hg.names_nodup
  refine (List.perm_ext_iff_of_nodup h.nodup hnodes).2 fun n => ⟨h.subset n, fun hn => ?_⟩
  exact Classical.byContradiction fun hnew => hall n ⟨hn, hnew⟩

/-- If cycles may be broken, no node is left in the end. -/
theorem Schedule.not_left (h : g.Schedule true order) (m : Node) : ¬g.Left order m := by
  intro hm
  obtain ⟨n, hn⟩ := g.exists_earliest ⟨m, hm⟩
  exact h.ends n (.inr ⟨rfl, h.not_ready, hn⟩)

/-! ### Positions -/

section

variable (hg : g.WellFormed)

include hg

/-- Nodes of the graph have different names. -/
theorem WellFormed.name_injective (hm : m ∈ g.nodes) (hn : n ∈ g.nodes) (hname : m.name = n.name) :
    m = n :=
  List.inj_on_of_nodup_map hg.names_nodup hm hn hname

theorem Schedule.names_nodup (h : g.Schedule relaxed order) : (order.map Node.name).Nodup :=
  h.nodup.map_on fun _ hm _ hn hname => hg.name_injective (h.subset _ hm) (h.subset _ hn) hname

end

theorem position_lt_length_iff :
    position (placed ++ rest) name < placed.length ↔ name ∈ placed.map Node.name := by
  unfold position
  rw [List.map_append]
  constructor
  · intro hlt
    refine Decidable.byContradiction fun hnew => ?_
    rw [List.idxOf_append_of_notMem hnew, List.length_map] at hlt
    omega
  · intro hmem
    rw [List.idxOf_append_of_mem hmem, ← List.length_map Node.name]
    exact List.idxOf_lt_length_iff.2 hmem

theorem position_split (h : ((placed ++ n :: rest).map Node.name).Nodup) :
    position (placed ++ n :: rest) n.name = placed.length := by
  rw [List.map_append, List.map_cons] at h
  have hnew : n.name ∉ placed.map Node.name := fun hmem =>
    (List.nodup_append.1 h).2.2 _ hmem _ List.mem_cons_self rfl
  rw [position, List.map_append, List.map_cons, List.idxOf_append_of_notMem hnew,
    List.idxOf_cons_self, List.length_map]
  rfl

/-- The names before a node in an order are those placed before it. -/
theorem position_lt_split_iff (h : ((placed ++ n :: rest).map Node.name).Nodup) :
    position (placed ++ n :: rest) name < position (placed ++ n :: rest) n.name ↔
      name ∈ placed.map Node.name := by
  rw [position_split h, position_lt_length_iff]

/-! ### Edges that point forward -/

/-- **An edge** points forward if its target was ready when it came. -/
theorem Schedule.forward (hg : g.WellFormed) (h : g.Schedule relaxed order) {e : Edge}
    (he : e ∈ g.edges) (hsplit : order = placed ++ n :: rest) (htarget : e.target = n.name)
    (hready : g.Ready placed n) : position order e.source < position order e.target := by
  have hnames := h.names_nodup hg
  rw [hsplit] at hnames ⊢
  rw [htarget, position_lt_split_iff hnames]
  exact hready.2.2 e he htarget

/-- Where each of finitely many elements has a predecessor among them, there is a cycle. -/
theorem exists_cycle_of_predecessors {α : Type} {r : α → α → Prop} {p : α → Prop} {l : List α}
    (hfinite : ∀ x, p x → x ∈ l) (hexists : ∃ x, p x) (hpred : ∀ x, p x → ∃ y, p y ∧ r y x) :
    ∃ x, p x ∧ TransGen r x x := by
  refine Classical.byContradiction fun hno => ?_
  have : Finite { x // p x } := ((List.finite_toSet l).subset hfinite).to_subtype
  have : IsTrans { x // p x } fun x y => TransGen r x y := ⟨fun _ _ _ h h' => TransGen.trans h h'⟩
  have : Std.Irrefl fun x y : { x // p x } => TransGen r x y :=
    ⟨fun x hx => hno ⟨x, x.2, hx⟩⟩
  -- Without a cycle there is an element that nothing precedes.
  have hwf := Finite.wellFounded_of_trans_of_irrefl fun x y : { x // p x } => TransGen r x y
  obtain ⟨x, hx⟩ := hexists
  obtain ⟨m, -, hmin⟩ := hwf.has_min Set.univ ⟨⟨x, hx⟩, trivial⟩
  obtain ⟨y, hy, hr⟩ := hpred m m.2
  exact hmin ⟨y, hy⟩ trivial (.single hr)

/-- The name is on a cycle, or a cycle leads to it. -/
def DependsOnCycle (g : Graph) (name : String) : Prop :=
  ∃ other, TransGen g.Calls other other ∧ ReflTransGen g.Calls other name

/-- **A node left** while none is ready depends on a cycle. -/
theorem WellFormed.dependsOnCycle (hg : g.WellFormed) (hleft : g.Left placed n)
    (hnone : ∀ m, ¬g.Ready placed m) : g.DependsOnCycle n.name := by
  -- A node left that is not ready has an edge from another node left.
  have hpred : ∀ m, g.Left placed m ∧ ReflTransGen g.Calls m.name n.name →
      ∃ m', (g.Left placed m' ∧ ReflTransGen g.Calls m'.name n.name) ∧ g.Calls m'.name m.name := by
    rintro m ⟨hm, hdepends⟩
    obtain ⟨e, he, htarget, hnew⟩ : ∃ e ∈ g.edges, e.target = m.name ∧
        e.source ∉ placed.map Node.name := by
      refine Classical.byContradiction fun hno => hnone m ⟨hm.1, hm.2, fun e he htarget => ?_⟩
      exact Classical.byContradiction fun hnew => hno ⟨e, he, htarget, hnew⟩
    obtain ⟨m', hm', hsource⟩ := List.mem_map.1 (hg.source_mem he)
    have hcalls : g.Calls m'.name m.name := ⟨e, he, hsource.symm, htarget⟩
    refine ⟨m', ⟨⟨hm', fun hplaced => hnew ?_⟩, hdepends.head hcalls⟩, hcalls⟩
    rw [← hsource]
    exact List.mem_map_of_mem hplaced
  obtain ⟨m, ⟨-, hm⟩, hcycle⟩ := exists_cycle_of_predecessors (fun m hm => hm.1.1)
    ⟨n, hleft, .refl⟩ hpred
  exact ⟨m.name, TransGen.lift Node.name (fun _ _ hcalls => hcalls) _ _ hcycle, hm⟩

end Graph

end CallGraph
