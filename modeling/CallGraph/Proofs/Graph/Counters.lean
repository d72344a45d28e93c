import CallGraph.Proofs.Graph.Stages
import CallGraph.Proofs.Graph.Turns

/-!
# The counters at every moment

A turn of the loop places a node and then takes its edges into account, one after the other.  The
counters can be told at every moment of this, also between two edges of a node.

* `Placement.Moment`, `Placement.Moment.Step` — nodes placed and edges pending; a step places **the
  next node** or takes **one edge** into account;
* `Placement.Moment.Step.sound`, `Placement.Moment.Sound.steps` — what a step, and any number of them,
  keeps;
* `Placement.Moment.Sound.pos`, `Placement.Moment.Sound.clears_once` — a counter is lowered only if it
  is not zero, and comes down to zero once;
* `Placement.Moment.steps_run`, `Placement.Moment.exists_last` — a run consists of these steps, and where
  it ends no step is left;
* `Graph.Tallies` — what the counters say, told by **the edges of the graph**;
* `counters_exact` — every moment of both orders of a graph.
-/

namespace CallGraph

open Relation

/-! ### Moments -/

namespace Placement

/-- A moment of the loop that places nodes. -/
structure Moment where
  /-- The nodes placed, the counters and the ready nodes. -/
  placement : Placement
  /-- Where the edges of the node placed last lead that are still to be taken into account. -/
  pending : List Nat

namespace Moment

variable {a : Adjacency} {p q : Placement} {m n : Moment} {relaxed : Bool} {j : Nat}

/-- Before the loop. -/
def initial (a : Adjacency) : Moment := ⟨.initial a, []⟩

/-- The counter of a node. -/
def counter (m : Moment) (j : Nat) : Nat := m.placement.waiting.getD j 0

/-- One step of the loop. -/
inductive Step (a : Adjacency) (relaxed : Bool) : Moment → Moment → Prop
  /-- No edge is pending: the next node is placed, and all its edges are pending. -/
  | place {p r : Placement} {i : Nat} (h : p.next? a relaxed = some (i, r)) :
      Step a relaxed ⟨p, []⟩ ⟨{ r with order := r.order ++ [i] }, a.successors i⟩
  /-- The first pending edge is taken into account. -/
  | release (p : Placement) (j : Nat) (pending : List Nat) :
      Step a relaxed ⟨p, j :: pending⟩ ⟨p.release j, pending⟩

/-- The loop comes to this moment. -/
def Reached (a : Adjacency) (relaxed : Bool) (m : Moment) : Prop :=
  ReflTransGen (Step a relaxed) (initial a) m

/-- The first pending edge leads to the node, and the node is not placed: its counter is lowered. -/
def Lowers (m : Moment) (j : Nat) : Prop := m.pending.head? = some j ∧ j ∉ m.placement.order

/-- The counter of the node is lowered to zero. -/
def Clears (m : Moment) (j : Nat) : Prop :=
  m.Lowers j ∧ (m.placement.release j).waiting.getD j 0 = 0

/-- The counters are right, and the pending edges are the last ones of the node placed last. -/
structure Sound (a : Adjacency) (m : Moment) : Prop where
  /-- The counters are right but for the pending edges. -/
  counts : Counts a m.placement m.pending
  /-- The pending edges leave the node placed last, and all edges before them are accounted for. -/
  suffix : m.pending = [] ∨
    ∃ placed i, m.placement.order = placed ++ [i] ∧ m.pending <:+ a.successors i

/-! ### What each step keeps -/

theorem sound_initial (a : Adjacency) : Sound a (initial a) := ⟨counts_initial a, .inl rfl⟩

theorem Sound.lt_size (ha : a.Bounded) (h : Sound a m) (hj : j ∈ m.pending) : j < a.size := by
  rcases h.suffix with hnil | ⟨_, i, -, hsuffix⟩
  · rw [hnil] at hj
    exact absurd hj List.not_mem_nil
  · exact ha i j (hsuffix.subset hj)

/-- **A step** keeps the counters right. -/
theorem Step.sound (ha : a.Bounded) (h : Sound a m) (hstep : Step a relaxed m n) : Sound a n := by
  cases hstep with
  | place hnext =>
    obtain ⟨-, -, hcounts⟩ := h.counts.take hnext
    exact ⟨hcounts, .inr ⟨_, _, rfl, List.suffix_rfl⟩⟩
  | release p j pending =>
    refine ⟨h.counts.release (h.lt_size ha List.mem_cons_self), ?_⟩
    rcases h.suffix with hnil | ⟨placed, i, horder, hsuffix⟩
    · exact absurd hnil (List.cons_ne_nil j pending)
    · exact .inr ⟨placed, i, (p.order_release j).trans horder,
        (List.suffix_cons j pending).trans hsuffix⟩

/-- **A counter that is lowered** is not zero: the edge that lowers it is still counted. -/
theorem Sound.pos (ha : a.Bounded) (h : Sound a m) (hlowers : m.Lowers j) : 0 < m.counter j := by
  have hmem : j ∈ m.pending := List.mem_of_head? hlowers.1
  have hpending : 0 < m.pending.count j := List.count_pos_iff.2 hmem
  have hcounter : m.counter j = a.entering m.placement.order j + m.pending.count j :=
    h.counts.waiting_eq j (h.lt_size ha hmem) hlowers.2
  omega

/-- It is lowered by one, however many edges to the node are pending. -/
theorem Sound.lowered (ha : a.Bounded) (h : Sound a m) (hlowers : m.Lowers j) :
    (m.placement.release j).waiting.getD j 0 + 1 = m.counter j := by
  have hlt : j < m.placement.waiting.length :=
    h.counts.length_waiting ▸ h.lt_size ha (List.mem_of_head? hlowers.1)
  rw [getD_waiting_release_self hlowers.2 hlt]
  exact Nat.sub_add_cancel (h.pos ha hlowers)

/-- All other counters stay. -/
theorem Step.counter_of_not_lowers (h : Sound a m) (hstep : Step a relaxed m n)
    (hkept : ¬m.Lowers j) : n.counter j = m.counter j := by
  cases hstep with
  | place hnext =>
    obtain ⟨-, ⟨-, hwaiting⟩, -⟩ := h.counts.take hnext
    exact congrArg (fun waiting : List Nat => waiting.getD j 0) hwaiting
  | release p k pending =>
    by_cases hjk : j = k
    · subst hjk
      have hplaced : j ∈ p.order := Decidable.byContradiction fun hnew => hkept ⟨rfl, hnew⟩
      exact congrArg (fun q : Placement => q.waiting.getD j 0) (release_of_mem hplaced)
    · exact getD_waiting_release_of_ne hjk

theorem Step.counter_of_clears (hstep : Step a relaxed m n) (hclears : m.Clears j) :
    n.counter j = 0 := by
  obtain ⟨⟨hhead, -⟩, hzero⟩ := hclears
  cases hstep with
  | place hnext => exact absurd hhead.symm (Option.some_ne_none j)
  | release p k pending =>
    obtain rfl := Option.some.inj hhead
    exact hzero

/-! ### What any number of steps keeps -/

/-- **Steps** keep the counters right, and a counter that is zero stays so. -/
theorem Sound.steps (ha : a.Bounded) (h : Sound a m) (hsteps : ReflTransGen (Step a relaxed) m n) :
    Sound a n ∧ ∀ j, m.counter j = 0 → n.counter j = 0 := by
  induction hsteps with
  | refl => exact ⟨h, fun _ hzero => hzero⟩
  | @tail u v _ hstep ih =>
    obtain ⟨hu, hkeeps⟩ := ih
    refine ⟨hstep.sound ha hu, fun j hzero => ?_⟩
    -- A step lowers no counter that is zero.
    have hkept : ¬u.Lowers j := fun hlowers => (hu.pos ha hlowers).ne' (hkeeps j hzero)
    exact (hstep.counter_of_not_lowers hu hkept).trans (hkeeps j hzero)

/-- **A counter comes down to zero** once, and not at all if it is zero from the beginning. -/
theorem Sound.clears_once (ha : a.Bounded) (h : Sound a m) (hsteps : TransGen (Step a relaxed) m n)
    (hzero : m.counter j = 0 ∨ m.Clears j) : ¬n.Clears j := by
  obtain ⟨u, hstep, hrest⟩ := TransGen.head'_iff.1 hsteps
  obtain ⟨hu, hkeeps⟩ := h.steps ha (.single hstep)
  have hcleared : u.counter j = 0 := hzero.elim (hkeeps j) hstep.counter_of_clears
  obtain ⟨hn, hkeeps⟩ := hu.steps ha hrest
  exact fun hagain => (hn.pos ha hagain.1).ne' (hkeeps j hcleared)

/-! ### The steps of a run -/

/-- There is only one step to take. -/
theorem step_unique (a : Adjacency) (relaxed : Bool) : Relator.RightUnique (Step a relaxed) := by
  intro m n n' hstep hstep'
  cases hstep with
  | place hnext =>
    cases hstep' with
    | place hnext' =>
      obtain ⟨rfl, rfl⟩ := Prod.mk.inj (Option.some.inj (hnext.symm.trans hnext'))
      rfl
  | release p j pending =>
    cases hstep'
    rfl

/-- The pending edges are taken into account one after the other. -/
theorem steps_foldl (p : Placement) (pending : List Nat) :
    ReflTransGen (Step a relaxed) ⟨p, pending⟩ ⟨pending.foldl Placement.release p, []⟩ := by
  induction pending generalizing p with
  | nil => exact .refl
  | cons j pending ih => exact (ih (p.release j)).head (.release p j pending)

theorem steps_of_turn (hturn : Turn a relaxed p q) : ReflTransGen (Step a relaxed) ⟨p, []⟩ ⟨q, []⟩ := by
  obtain ⟨i, r, hnext, rfl⟩ := hturn
  exact (steps_foldl _ _).head (.place hnext)

/-- **A run** consists of steps. -/
theorem steps_run (a : Adjacency) (relaxed : Bool) (count : Nat) (p : Placement) :
    ReflTransGen (Step a relaxed) ⟨p, []⟩ ⟨Placement.run a relaxed count p, []⟩ :=
  ReflTransGen.lift' (fun q : Placement => (⟨q, []⟩ : Moment)) (fun _ _ => steps_of_turn) _ _
    (turns_run a relaxed count p)

/-- **The loop ends** where the nodes placed are the order, and every moment leads there. -/
theorem exists_last (ha : a.Bounded) (relaxed : Bool) :
    ∃ last, Reached a relaxed last ∧ (∀ n, ¬Step a relaxed last n) ∧
      last.placement.order = a.order relaxed ∧
      ∀ m, Reached a relaxed m → ReflTransGen (Step a relaxed) m last := by
  have hlast := steps_run a relaxed a.size (.initial a)
  have hturns : ∀ q, ¬Turn a relaxed (Placement.run a relaxed a.size (.initial a)) q :=
    (counts_initial a).run_ends ha .nil (Nat.le_add_right a.size _)
  have hends : ∀ n, ¬Step a relaxed ⟨Placement.run a relaxed a.size (.initial a), []⟩ n := by
    intro n hstep
    cases hstep with
    | place hnext => exact hturns _ ⟨_, _, hnext, rfl⟩
  exact ⟨_, hlast, hends, rfl, fun m hm => leads_to_last (step_unique a relaxed) hm hlast hends⟩

end Moment

end Placement

/-! ### The edges of a graph -/

namespace Graph

open Placement (Moment)

variable {g : Graph} {n : Node} {m : Moment} {indices : List Nat}

/-- The edges of some nodes are the edges whose source is one of them. -/
theorem WellFormed.perm_edgesFrom (h : g.WellFormed) {left : List Nat} (hnodup : left.Nodup)
    (hlt : ∀ i ∈ left, i < g.nodes.length) :
    (left.flatMap fun i => g.edgesFrom (g.nameAt i)).Perm
      (g.edges.filter fun e => position g.nodes e.source ∈ left) := by
  have hedges : ∀ i ∈ left, g.edgesFrom (g.nameAt i) =
      (g.edges.filter fun e => position g.nodes e.source ∈ left).filter
        fun e => e.source = g.nameAt i := by
    intro i hi
    rw [h.edgesFrom_eq, List.filter_filter]
    refine List.filter_congr fun e _ => ?_
    by_cases hsource : e.source = g.nameAt i
    · have hmem : position g.nodes e.source ∈ left := by
        rwa [hsource, h.position_nameAt (hlt i hi)]
      rw [decide_eq_true hsource, decide_eq_true hmem]
      rfl
    · rw [decide_eq_false hsource, Bool.false_and]
  rw [List.flatMap_congr hedges]
  refine perm_flatMap_filter (hnodup.map_on fun i hi j hj hname => ?_) fun e he => ?_
  · rw [← h.position_nameAt (hlt i hi), hname, h.position_nameAt (hlt j hj)]
  · obtain ⟨he, hmem⟩ := List.mem_filter.1 he
    exact List.mem_map.2 ⟨_, of_decide_eq_true hmem, nameAt_position (h.source_mem he)⟩

/-- Edges that lead to the number of a node are edges that enter the node. -/
theorem WellFormed.count_targets (h : g.WellFormed) (hn : n ∈ g.nodes) {edges : List Edge}
    (hedges : ∀ e ∈ edges, e ∈ g.edges) :
    (edges.map fun e => position g.nodes e.target).count (position g.nodes n.name) =
      edges.countP fun e => e.target = n.name := by
  rw [List.count, List.countP_map]
  refine List.countP_congr fun e he => ?_
  rw [Function.comp_apply, beq_iff_eq, decide_eq_true_eq]
  exact ⟨position_injective (h.target_mem (hedges e he)) (List.mem_map_of_mem hn), congrArg _⟩

/-- **The edges counted** are those of the graph that enter the node from nodes not placed. -/
theorem WellFormed.entering_eq (h : g.WellFormed) (hn : n ∈ g.nodes) :
    g.adjacency.entering indices (position g.nodes n.name) =
      (g.edgesTo n.name).countP fun e => e.source ∉ (g.nodesAt indices).map Node.name := by
  -- The edges are counted node by node, while the graph has them in one list.
  obtain ⟨left, hleft, hnodup, hmem⟩ : ∃ left : List Nat,
      (List.range g.nodes.length).filter (fun i => i ∉ indices) = left ∧ left.Nodup ∧
        ∀ i, i ∈ left ↔ i < g.nodes.length ∧ i ∉ indices :=
    ⟨_, rfl, List.nodup_range.filter _, fun i => by
      rw [List.mem_filter, List.mem_range, decide_eq_true_eq]⟩
  have hlt : ∀ i ∈ left, i < g.nodes.length := fun i hi => ((hmem i).1 hi).1
  have hsuccessors : left.flatMap g.adjacency.successors =
      (left.flatMap fun i => g.edgesFrom (g.nameAt i)).map fun e => position g.nodes e.target := by
    rw [List.map_flatMap]
    exact List.flatMap_congr fun i hi => h.successors_eq (hlt i hi)
  have hsources : ∀ e ∈ g.edges, position g.nodes e.source ∈ left ↔
      e.source ∉ (g.nodesAt indices).map Node.name := by
    intro e he
    rw [hmem, h.mem_names_nodesAt (h.source_mem he),
      and_iff_right (position_lt_iff.2 (h.source_mem he))]
  rw [Adjacency.entering, size_adjacency, hleft, hsuccessors,
    ((h.perm_edgesFrom hnodup hlt).map _).count_eq,
    h.count_targets hn fun e he => (List.mem_filter.1 he).1, List.countP_filter, edgesTo,
    List.countP_filter]
  refine List.countP_congr fun e he => ?_
  rw [Bool.and_eq_true, Bool.and_eq_true, decide_eq_true_eq, decide_eq_true_eq, decide_eq_true_eq,
    hsources e he, and_comm]

/-! ### The counters, told by edges -/

/-- A moment of the loop, while the edges `pending` are still to be taken into account. -/
structure Tallies (g : Graph) (m : Moment) (pending : List Edge) : Prop where
  /-- There is a counter for each node. -/
  length_waiting : m.placement.waiting.length = g.nodes.length
  /-- The loop still goes through these edges. -/
  targets_eq : m.pending = pending.map fun e => position g.nodes e.target
  /-- They are the last edges of the node placed last. -/
  suffix : pending = [] ∨
    ∃ placed n, g.nodesAt m.placement.order = placed ++ [n] ∧ pending <:+ g.edgesFrom n.name
  /-- The counter of a node that is not placed is the number of edges that enter it from nodes not
  placed, and of those pending that enter it. -/
  counter_eq : ∀ n, g.Left (g.nodesAt m.placement.order) n →
    m.counter (position g.nodes n.name) =
      (g.edgesTo n.name).countP
        (fun e => e.source ∉ (g.nodesAt m.placement.order).map Node.name) +
      pending.countP fun e => e.target = n.name

/-- The pending edges are edges of the graph. -/
theorem WellFormed.exists_pending (h : g.WellFormed) (hm : m.Sound g.adjacency) :
    ∃ pending : List Edge, (∀ e ∈ pending, e ∈ g.edges) ∧
      (m.pending = pending.map fun e => position g.nodes e.target) ∧
      (pending = [] ∨ ∃ placed n,
        g.nodesAt m.placement.order = placed ++ [n] ∧ pending <:+ g.edgesFrom n.name) := by
  rcases hm.suffix with hnil | ⟨placed, i, horder, hsuffix⟩
  · exact ⟨[], List.forall_mem_nil _, hnil, .inl rfl⟩
  · have hi : i < g.nodes.length :=
      size_adjacency g ▸ hm.counts.lt_size i (horder ▸ List.mem_concat_self)
    rw [h.successors_eq hi] at hsuffix
    obtain ⟨passed, hpassed⟩ := hsuffix
    obtain ⟨before, pending, hsplit, -, hpending⟩ := List.map_eq_append_iff.1 hpassed.symm
    have hsuffix : pending <:+ g.edgesFrom (g.nameAt i) := ⟨before, hsplit.symm⟩
    refine ⟨pending, fun e he => ?_, hpending.symm, .inr ⟨g.nodesAt placed, g.nodes[i], ?_, ?_⟩⟩
    · have he := hsuffix.subset he
      rw [h.edgesFrom_eq] at he
      exact (List.mem_filter.1 he).1
    · rw [horder, nodesAt_concat (List.getElem?_eq_getElem hi)]
    · rwa [← nameAt_eq hi]

/-- **The counters** of a moment are right for the graph as well. -/
theorem WellFormed.tallies (h : g.WellFormed) (hm : m.Sound g.adjacency) :
    ∃ pending, g.Tallies m pending := by
  obtain ⟨pending, hedges, htargets, hsuffix⟩ := h.exists_pending hm
  have hlength := hm.counts.length_waiting.trans (size_adjacency g)
  refine ⟨pending, hlength, htargets, hsuffix, fun n hleft => ?_⟩
  obtain ⟨hlt, hnew⟩ := (h.left_iff hleft.1).2 hleft
  rw [← h.entering_eq hleft.1, ← h.count_targets hleft.1 hedges, ← htargets]
  exact hm.counts.waiting_eq _ hlt hnew

/-- **The counters of a graph** that any calls have built, at every moment of the loop that places its
nodes, whether cycles may be broken or not.

* The counter of a node that is not placed is the number of edges that enter it from nodes not placed,
  each edge by itself, and of those edges of the node placed last that are still pending.
* A counter that is lowered is lowered by one, so it was not zero.  It comes down to zero at most
  once, and not at all if it was zero before.
* The ready nodes are nodes of the graph that are not placed, and so is the node to place next, also
  where it is not ready and breaks a cycle.
* No node is placed twice.
* These are the moments of the order: they lead to where the loop ends, and the nodes placed there are
  the order. -/
theorem counters_exact (changes : List Change) (relaxed : Bool) :
    let g := built changes
    let a := g.adjacency
    (∀ m, Moment.Reached a relaxed m →
      (∃ pending, g.Tallies m pending) ∧
      ((∀ j, m.Lowers j → (m.placement.release j).waiting.getD j 0 + 1 = m.counter j) ∧
        ∀ n j, TransGen (Moment.Step a relaxed) m n → m.counter j = 0 ∨ m.Clears j → ¬n.Clears j) ∧
      ((∀ i ∈ m.placement.ready, a.Left m.placement.order i) ∧
        ∀ i p, m.pending = [] → m.placement.next? a relaxed = some (i, p) →
          a.Left m.placement.order i) ∧
      (m.placement.order.Nodup ∧ ∀ i ∈ m.placement.order, i < a.size)) ∧
    ∃ last, Moment.Reached a relaxed last ∧ (∀ n, ¬Moment.Step a relaxed last n) ∧
      last.placement.order = a.order relaxed ∧
      ∀ m, Moment.Reached a relaxed m → ReflTransGen (Moment.Step a relaxed) m last := by
  intro g a
  have hg : g.WellFormed := wellFormed_built changes
  have ha : a.Bounded := hg.bounded
  refine ⟨fun m hm => ?_, Moment.exists_last ha relaxed⟩
  obtain ⟨hsound, -⟩ := (Moment.sound_initial a).steps ha hm
  have hcounts := hsound.counts
  refine ⟨hg.tallies hsound, ⟨fun j => hsound.lowered ha, fun n j => hsound.clears_once ha⟩,
    ⟨fun i hi => ?_, fun i p hnil hnext => ?_⟩, hcounts.nodup, hcounts.lt_size⟩
  · obtain ⟨hlt, hnew, -⟩ := (hcounts.mem_ready i).1 hi
    exact ⟨hlt, hnew⟩
  · rw [hnil] at hcounts
    exact (hcounts.take hnext).1.left

end Graph

end CallGraph
