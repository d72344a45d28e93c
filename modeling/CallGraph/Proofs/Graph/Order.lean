import CallGraph.Proofs.Graph.Schedule

/-!
# Orders of execution

* `Graph.IsOrder` — all nodes, each once, with all edges pointing forward;
* `Graph.Schedule.isOrder`, `Graph.Schedule.least` — a strict schedule of all nodes is an order, and
  the least of all orders;
* `Graph.WellFormed.order_cases` — the order is a strict schedule, or a node is left;
* `order_least` — **the order** of a graph exists precisely if the graph has no cycle, and is the
  least one.
-/

namespace CallGraph

open Relation

namespace Graph

variable {g : Graph} {placed order other rest rest' : List Node} {m n : Node} {relaxed : Bool}

/-- All nodes, each once, such that the source of each edge comes before its target. -/
def IsOrder (g : Graph) (order : List Node) : Prop :=
  order.Perm g.nodes ∧ ∀ e ∈ g.edges, position order e.source < position order e.target

/-- The numbers of nodes, in order of declaration. -/
def numbers (g : Graph) (nodes : List Node) : List Nat :=
  nodes.map fun n => position g.nodes n.name

/-! ### The least order -/

theorem IsOrder.names_nodup (hg : g.WellFormed) (h : g.IsOrder order) :
    (order.map Node.name).Nodup :=
  (h.1.map Node.name).nodup_iff.2 hg.names_nodup

/-- In an order each node is ready when it comes. -/
theorem IsOrder.ready (hg : g.WellFormed) (h : g.IsOrder (placed ++ n :: rest)) :
    g.Ready placed n := by
  have hnames := h.names_nodup hg
  have hnodup : (placed ++ n :: rest).Nodup := List.Nodup.of_map _ hnames
  refine ⟨h.1.mem_iff.1 (List.mem_append_right _ List.mem_cons_self), fun hn => ?_, ?_⟩
  · exact (List.nodup_append.1 hnodup).2.2 n hn n List.mem_cons_self rfl
  · intro e he htarget
    have hlt := h.2 e he
    rwa [htarget, position_lt_split_iff hnames] at hlt

/-- In a strict schedule each node is the earliest one that is ready. -/
theorem Schedule.earliest (h : g.Schedule false order) (hsplit : order = placed ++ n :: rest) :
    g.Earliest (g.Ready placed) n :=
  (h.next placed n rest hsplit).resolve_right fun hstuck => Bool.false_ne_true hstuck.1

/-- **A strict schedule** of all nodes is the least of all orders. -/
theorem Schedule.least (hg : g.WellFormed) (h : g.Schedule false order) (hperm : order.Perm g.nodes)
    (hother : g.IsOrder other) :
    order = other ∨ List.Lex (· < ·) (g.numbers order) (g.numbers other) := by
  have hlength : order.length = other.length := (hperm.trans hother.1.symm).length_eq
  -- Up to the first difference the same nodes are placed.
  have hrest : ∀ rest placed rest', order = placed ++ rest → other = placed ++ rest' →
      rest = rest' ∨ List.Lex (· < ·) (g.numbers rest) (g.numbers rest') := by
    intro rest
    induction rest with
    | nil =>
      intro placed rest' horder hother'
      rw [horder, hother', List.append_nil, List.length_append] at hlength
      exact .inl (List.eq_nil_of_length_eq_zero (by omega)).symm
    | cons m rest ih =>
      intro placed rest' horder hother'
      cases rest' with
      | nil =>
        rw [horder, hother', List.append_nil, List.length_append, List.length_cons] at hlength
        omega
      | cons n rest' =>
        by_cases hmn : m = n
        · subst hmn
          rw [List.append_cons] at horder hother'
          exact (ih (placed ++ [m]) rest' horder hother').imp (congrArg (m :: ·)) .cons
        · -- The other node was ready too, so that it was declared later.
          have hready : g.Ready placed n := IsOrder.ready hg (hother' ▸ hother)
          have hearliest := h.earliest horder
          refine .inr (.rel (Nat.lt_of_le_of_ne (hearliest.2 n hready) fun heq => hmn ?_))
          have hm := hearliest.1.1
          have hn := hready.1
          exact hg.name_injective hm hn
            (position_injective (List.mem_map_of_mem hm) (List.mem_map_of_mem hn) heq)
  exact hrest order [] other rfl rfl

/-! ### Cycles -/

/-- Along edges that point forward positions grow. -/
theorem position_lt_of_transGen
    (hforward : ∀ e ∈ g.edges, position order e.source < position order e.target) {a b : String}
    (h : TransGen g.Calls a b) : position order a < position order b := by
  induction h with
  | single hcalls =>
    obtain ⟨e, he, rfl, rfl⟩ := hcalls
    exact hforward e he
  | tail _ hcalls ih =>
    obtain ⟨e, he, rfl, rfl⟩ := hcalls
    exact ih.trans (hforward e he)

/-- Where there is an order there is no cycle. -/
theorem IsOrder.acyclic (h : g.IsOrder order) (name : String) : ¬TransGen g.Calls name name :=
  fun hcycle => Nat.lt_irrefl _ (position_lt_of_transGen h.2 hcycle)

/-! ### The order -/

/-- A schedule of all nodes, each of which was ready, is an order. -/
theorem Schedule.isOrder (hg : g.WellFormed) (h : g.Schedule false order)
    (hperm : order.Perm g.nodes) : g.IsOrder order := by
  refine ⟨hperm, fun e he => ?_⟩
  obtain ⟨n, hn, htarget⟩ := List.mem_map.1 (hg.target_mem he)
  obtain ⟨placed, rest, hsplit⟩ := List.append_of_mem (hperm.mem_iff.2 hn)
  exact h.forward hg he hsplit htarget.symm (h.earliest hsplit).1

/-- A number is missing precisely if there are fewer of them than nodes. -/
theorem length_lt_iff {numbers : List Nat} {size : Nat} (hnodup : numbers.Nodup)
    (hlt : ∀ i ∈ numbers, i < size) : numbers.length < size ↔ ∃ i < size, i ∉ numbers := by
  constructor
  · intro hlength
    refine Classical.byContradiction fun hall => ?_
    have hsubset : List.range size ⊆ numbers := fun i hi => Classical.byContradiction fun hnew =>
      hall ⟨i, List.mem_range.1 hi, hnew⟩
    have hle := (List.subperm_of_subset List.nodup_range hsubset).length_le
    rw [List.length_range] at hle
    omega
  · rintro ⟨i, hi, hnew⟩
    exact Nat.lt_of_not_le fun hle => hnew (mem_of_length_le hnodup hlt hle hi)

/-- The order is the strict schedule if that has all nodes, and fails if a node is left. -/
theorem WellFormed.order_cases (hg : g.WellFormed) :
    ∃ order, g.Schedule false order ∧
      ((g.order = .ok order ∧ order.Perm g.nodes) ∨
        (g.order = .error (.cycle (g.cycles.head?.getD [])) ∧ ∃ n, g.Left order n)) := by
  obtain ⟨hnodup, hlt, -⟩ := Adjacency.order_scheduled hg.bounded false
  rw [size_adjacency] at hlt
  have hschedule := hg.schedule false
  refine ⟨_, hschedule, ?_⟩
  by_cases hlength : (g.adjacency.order false).length < g.nodes.length
  · refine .inr ⟨if_pos hlength, ?_⟩
    obtain ⟨i, hi, hnew⟩ := (length_lt_iff hnodup hlt).1 hlength
    obtain ⟨n, hn, rfl⟩ := hg.exists_position hi
    exact ⟨n, hn, fun hmem => hnew (hg.mem_nodesAt.1 hmem).2⟩
  · refine .inl ⟨if_neg hlength, ?_⟩
    refine hschedule.perm hg fun n ⟨hn, hnew⟩ => hlength ((length_lt_iff hnodup hlt).2 ?_)
    refine ⟨_, position_lt_iff.2 (List.mem_map_of_mem hn), fun hi => hnew ?_⟩
    exact hg.mem_nodesAt.2 ⟨hn, hi⟩

/-- A graph without a cycle has an order. -/
theorem WellFormed.order_of_cycles_nil (hg : g.WellFormed) (h : g.cycles = []) :
    ∃ order, g.order = .ok order := by
  obtain ⟨order, hschedule, ⟨horder, -⟩ | ⟨-, n, hleft⟩⟩ := hg.order_cases
  · exact ⟨order, horder⟩
  · obtain ⟨name, hcycle, -⟩ := hg.dependsOnCycle hleft hschedule.not_ready
    exact absurd hcycle (hg.cycles_eq_nil_iff.1 h name)

/-- A graph with a cycle has none, and the first cycle is reported. -/
theorem WellFormed.order_of_cycles_cons (hg : g.WellFormed) {path : List String}
    {others : List (List String)} (h : g.cycles = path :: others) :
    g.order = .error (.cycle path) := by
  obtain ⟨order, hschedule, ⟨-, hperm⟩ | ⟨horder, -⟩⟩ := hg.order_cases
  · obtain ⟨root, hroot, -⟩ := hg.circle_of_mem_cycles (h ▸ List.mem_cons_self)
    exact absurd (cyclic_iff.1 hroot.1) ((hschedule.isOrder hg hperm).acyclic root)
  · rw [horder, h]
    rfl

theorem WellFormed.cycles_of_order (hg : g.WellFormed) (h : g.order = .ok order) : g.cycles = [] := by
  cases hcycles : g.cycles with
  | nil => rfl
  | cons path others =>
    rw [hg.order_of_cycles_cons hcycles] at h
    cases h

/-- **The order of a graph** that any calls have built.

* It exists precisely if no name leads back to itself.
* It is an order of all nodes; each node in it is the earliest declared one of those ready, and no
  other order of the nodes comes before it if orders are compared by the numbers of their nodes.
* If it does not exist, the first cycle is reported. -/
theorem order_least (changes : List Change) :
    let g := built changes
    ((∃ order, g.order = .ok order) ↔ ∀ name, ¬TransGen g.Calls name name) ∧
      (∀ order, g.order = .ok order →
        g.IsOrder order ∧
        (∀ placed n rest, order = placed ++ n :: rest → g.Earliest (g.Ready placed) n) ∧
        ∀ other, g.IsOrder other →
          order = other ∨ List.Lex (· < ·) (g.numbers order) (g.numbers other)) ∧
      ∀ fault, g.order = .error fault →
        ∃ path rest, g.cycles = path :: rest ∧ path ≠ [] ∧ fault = .cycle path := by
  intro g
  have hg : g.WellFormed := wellFormed_built changes
  obtain ⟨order, hschedule, ⟨horder, hperm⟩ | ⟨horder, n, hleft⟩⟩ := hg.order_cases
  · have hisOrder := hschedule.isOrder hg hperm
    refine ⟨⟨fun _ => hisOrder.acyclic, fun _ => ⟨order, horder⟩⟩, fun order' horder' => ?_,
      fun fault hfault => ?_⟩
    · obtain rfl := Except.ok.inj (horder.symm.trans horder')
      exact ⟨hisOrder, fun placed n rest => hschedule.earliest,
        fun other => hschedule.least hg hperm⟩
    · rw [horder] at hfault
      cases hfault
  · obtain ⟨name, hcycle, -⟩ := hg.dependsOnCycle hleft hschedule.not_ready
    refine ⟨⟨fun ⟨order', horder'⟩ => ?_, fun hacyclic => absurd hcycle (hacyclic name)⟩,
      fun order' horder' => ?_, fun fault hfault => ?_⟩
    · rw [horder] at horder'
      cases horder'
    · rw [horder] at horder'
      cases horder'
    · obtain rfl := Except.error.inj (horder.symm.trans hfault)
      obtain ⟨shown, hshown, -⟩ := hg.exists_cycle (cyclic_iff.2 hcycle)
      obtain ⟨path, rest, hcycles⟩ := List.exists_cons_of_ne_nil (List.ne_nil_of_mem hshown)
      have hpath : path ∈ g.cycles := hcycles ▸ List.mem_cons_self
      obtain ⟨root, -, hcircle⟩ := hg.circle_of_mem_cycles hpath
      refine ⟨path, rest, hcycles, ?_, by rw [hcycles]; rfl⟩
      rintro rfl
      exact absurd hcircle.head? (Option.some_ne_none root).symm

end Graph

end CallGraph
