import CallGraph.Proofs.Graph.Order

/-!
# The loop that places nodes

`Placement.run` counts its turns down.  The loop needs no such bound: it comes to an end by itself,
also where it breaks cycles, and then all nodes are placed.

* `Placement.Turn` — one turn of the loop;
* `Placement.Counts.turn`, `Placement.Counts.turns` — what **a turn**, and any number of them, keeps;
* `Placement.Counts.isPrefix` — what is placed is never taken back;
* `Placement.Counts.acc` — there is no endless sequence of turns;
* `Placement.turns_run`, `Placement.Counts.run_ends` — a run is the whole loop;
* `Graph.Schedule.isPrefix` — up to where the strict order ends, **both orders** agree;
* `relaxed_order_total` — the relaxed order comes to an end with all nodes, and is the order of the
  graph precisely if the graph has no cycle.
-/

namespace CallGraph

open Relation

/-! ### Turns -/

/-- Where there is only one way to go, everything on the way leads to where it ends. -/
theorem leads_to_last {α : Type} {r : α → α → Prop} (hr : Relator.RightUnique r) {x y last : α}
    (hsteps : ReflTransGen r x y) (hlast : ReflTransGen r x last) (hends : ∀ z, ¬r last z) :
    ReflTransGen r y last := by
  rcases ReflTransGen.total_of_right_unique hr hsteps hlast with hrest | hback
  · exact hrest
  · rcases ReflTransGen.cases_head hback with rfl | ⟨z, hstep, -⟩
    · exact .refl
    · exact absurd hstep (hends z)

namespace Placement

variable {a : Adjacency} {p q last : Placement} {relaxed : Bool} {count : Nat}

/-- One turn of the loop: the node to place next is placed. -/
def Turn (a : Adjacency) (relaxed : Bool) (p q : Placement) : Prop :=
  ∃ i r, p.next? a relaxed = some (i, r) ∧ q = r.place a i

/-- Different nodes of a graph are not more than its nodes. -/
theorem Counts.length_le (h : Counts a p []) : p.order.length ≤ a.size := by
  have hsubset : p.order ⊆ List.range a.size := fun i hi => List.mem_range.2 (h.lt_size i hi)
  have hle := (List.subperm_of_subset h.nodup hsubset).length_le
  rwa [List.length_range] at hle

/-- **One turn** places a node that is chosen. -/
theorem Counts.turn (ha : a.Bounded) (h : Counts a p []) (hturn : Turn a relaxed p q) :
    Counts a q [] ∧ ∃ i, a.Chosen relaxed p.order i ∧ q.order = p.order ++ [i] := by
  obtain ⟨i, r, hnext, rfl⟩ := hturn
  obtain ⟨hchosen, hcounts, horder⟩ := h.step ha hnext
  exact ⟨hcounts, i, hchosen, horder⟩

/-- Any number of turns keeps what has been placed and places nodes that are chosen. -/
theorem Counts.turns (ha : a.Bounded) (h : Counts a p []) (hturns : ReflTransGen (Turn a relaxed) p q)
    (hscheduled : a.Scheduled relaxed p.order) :
    Counts a q [] ∧ a.Scheduled relaxed q.order ∧ p.order <+: q.order := by
  induction hturns with
  | refl => exact ⟨h, hscheduled, List.prefix_rfl⟩
  | tail _ hturn ih =>
    obtain ⟨hcounts, hscheduled, hprefix⟩ := ih
    obtain ⟨hcounts, i, hchosen, horder⟩ := hcounts.turn ha hturn
    rw [horder]
    exact ⟨hcounts, hscheduled.concat hchosen, hprefix.trans (List.prefix_append _ _)⟩

/-- There is only one turn to take. -/
theorem turn_unique (a : Adjacency) (relaxed : Bool) : Relator.RightUnique (Turn a relaxed) := by
  rintro p _ _ ⟨i, r, hnext, rfl⟩ ⟨j, s, hnext', rfl⟩
  rw [hnext] at hnext'
  obtain ⟨rfl, rfl⟩ := Prod.mk.inj (Option.some.inj hnext')
  rfl

/-- **On the way** to the end nothing is placed but what is placed in the end, in the same order. -/
theorem Counts.isPrefix (ha : a.Bounded) (h : Counts a p []) (hscheduled : a.Scheduled relaxed p.order)
    (hturns : ReflTransGen (Turn a relaxed) p q) (hlast : ReflTransGen (Turn a relaxed) p last)
    (hends : ∀ r, ¬Turn a relaxed last r) : q.order <+: last.order := by
  have hrest := leads_to_last (turn_unique a relaxed) hturns hlast hends
  obtain ⟨hcounts, hscheduled, -⟩ := h.turns ha hturns hscheduled
  exact (hcounts.turns ha hrest hscheduled).2.2

/-- **No sequence of turns** is endless: each leaves one node less. -/
theorem Counts.acc (ha : a.Bounded) (h : Counts a p []) :
    Acc (fun q p => Turn a relaxed p q) p := by
  generalize hleft : a.size - p.order.length = left
  induction left using Nat.strongRecOn generalizing p with
  | ind left ih =>
    refine Acc.intro p fun q hturn => ?_
    obtain ⟨hcounts, i, -, horder⟩ := h.turn ha hturn
    have hlength : q.order.length = p.order.length + 1 := by
      rw [horder, List.length_append, List.length_singleton]
    have hle := hcounts.length_le
    exact ih _ (by omega) hcounts rfl

/-- A run consists of turns. -/
theorem turns_run (a : Adjacency) (relaxed : Bool) (count : Nat) (p : Placement) :
    ReflTransGen (Turn a relaxed) p (run a relaxed count p) := by
  induction count generalizing p with
  | zero => exact .refl
  | succ count ih =>
    cases hnext : p.next? a relaxed with
    | none =>
      rw [run, hnext]
    | some next =>
      rw [run, hnext]
      exact (ih _).head ⟨next.1, next.2, hnext, rfl⟩

/-- **Behind a run** that may place all nodes there is no further turn. -/
theorem Counts.run_ends (ha : a.Bounded) (h : Counts a p []) (hscheduled : a.Scheduled relaxed p.order)
    (hcount : a.size ≤ count + p.order.length) (q : Placement) :
    ¬Turn a relaxed (Placement.run a relaxed count p) q := by
  obtain ⟨hcounts, -, hnone⟩ := h.run ha hscheduled hcount
  intro hturn
  obtain ⟨-, i, hchosen, -⟩ := hcounts.turn ha hturn
  exact hnone i hchosen

end Placement

/-! ### Both orders -/

namespace Graph

variable {g : Graph} {strict order placed : List Node} {m n : Node} {p : Node → Prop}

/-- Only one node is the earliest one. -/
theorem Earliest.unique (hg : g.WellFormed) (hp : ∀ n, p n → n ∈ g.nodes) (hm : g.Earliest p m)
    (hn : g.Earliest p n) : m = n := by
  have hmem := hp m hm.1
  have hmem' := hp n hn.1
  refine hg.name_injective hmem hmem' ?_
  refine position_injective (List.mem_map_of_mem hmem) (List.mem_map_of_mem hmem') ?_
  exact Nat.le_antisymm (hm.2 n hn.1) (hn.2 m hm.1)

/-- While nodes are ready, it makes no difference whether cycles may be broken. -/
theorem Next.eq_of_earliest (hg : g.WellFormed) (hm : g.Earliest (g.Ready placed) m)
    (hn : g.Next true placed n) : m = n := by
  rcases hn with hn | ⟨-, hnone, -⟩
  · exact Earliest.unique hg (fun k hk => hk.1) hm hn
  · exact absurd hm.1 (hnone m)

/-- **The strict order** is how the relaxed one begins. -/
theorem Schedule.isPrefix (hg : g.WellFormed) (hstrict : g.Schedule false strict)
    (h : g.Schedule true order) : strict <+: order := by
  -- Behind the same nodes the same node comes next.
  have hrest : ∀ rest placed rest', strict = placed ++ rest → order = placed ++ rest' →
      rest <+: rest' := by
    intro rest
    induction rest with
    | nil => exact fun placed rest' _ _ => List.nil_prefix
    | cons m rest ih =>
      intro placed rest' hsplit hsplit'
      have hearliest := hstrict.earliest hsplit
      cases rest' with
      | nil =>
        rw [List.append_nil] at hsplit'
        exact absurd hearliest.1 (hsplit' ▸ h.not_ready m)
      | cons n rest' =>
        obtain rfl := Next.eq_of_earliest hg hearliest (h.next placed n rest' hsplit')
        rw [List.append_cons] at hsplit hsplit'
        exact List.cons_prefix_cons.2 ⟨rfl, ih (placed ++ [m]) rest' hsplit hsplit'⟩
  exact hrest strict [] order rfl rfl

/-- Where the graph has an order, it is the relaxed one. -/
theorem WellFormed.order_eq_relaxedOrder (hg : g.WellFormed) (h : g.order = .ok order) :
    order = g.relaxedOrder := by
  obtain ⟨strict, hstrict, ⟨horder, hperm⟩ | ⟨horder, -⟩⟩ := hg.order_cases
  · obtain rfl := Except.ok.inj (horder.symm.trans h)
    have hrelaxed : g.Schedule true g.relaxedOrder := hg.schedule true
    refine (hstrict.isPrefix hg hrelaxed).eq_of_length ?_
    exact (hperm.trans (hrelaxed.perm hg hrelaxed.not_left).symm).length_eq
  · rw [horder] at h
    cases h

/-- **The relaxed order of a graph** that any calls have built, with cycles or without.

* The loop that places its nodes comes to an end by itself, and where it ends the nodes placed are
  the relaxed order.  On the way there no node is placed twice, and none out of this order.
* Each node of the graph is in it, exactly once, and nothing else.
* The order of the graph, where there is one, is the same, and there is one precisely if no name
  leads back to itself. -/
theorem relaxed_order_total (changes : List Change) :
    let g := built changes
    let a := g.adjacency
    (Acc (fun q p => Placement.Turn a true p q) (.initial a) ∧
      ∃ p, ReflTransGen (Placement.Turn a true) (.initial a) p ∧
        (∀ q, ¬Placement.Turn a true p q) ∧ g.relaxedOrder = g.nodesAt p.order ∧
        ∀ q, ReflTransGen (Placement.Turn a true) (.initial a) q →
          q.order.Nodup ∧ q.order <+: p.order) ∧
      (g.relaxedOrder.Perm g.nodes ∧ (g.relaxedOrder.map Node.name).Nodup) ∧
      (∀ order, g.order = .ok order → order = g.relaxedOrder) ∧
      (g.order = .ok g.relaxedOrder ↔ ∀ name, ¬TransGen g.Calls name name) := by
  intro g a
  have hg : g.WellFormed := wellFormed_built changes
  have hcounts := Placement.counts_initial a
  have hschedule : g.Schedule true g.relaxedOrder := hg.schedule true
  have hrun := Placement.turns_run a true a.size (.initial a)
  have hnil : a.Scheduled true (Placement.initial a).order := .nil
  have hends := hcounts.run_ends hg.bounded hnil (Nat.le_add_right a.size _)
  refine ⟨⟨hcounts.acc hg.bounded, _, hrun, hends, rfl, fun q hturns => ⟨?_, ?_⟩⟩,
    ⟨hschedule.perm hg hschedule.not_left, hschedule.names_nodup hg⟩,
    fun order => hg.order_eq_relaxedOrder, ?_⟩
  · exact (hcounts.turns hg.bounded hturns hnil).1.nodup
  · exact hcounts.isPrefix hg.bounded hnil hturns hrun hends
  · constructor
    · exact fun horder => hg.cycles_eq_nil_iff.1 (hg.cycles_of_order horder)
    · intro hacyclic
      obtain ⟨order, horder⟩ := hg.order_of_cycles_nil (hg.cycles_eq_nil_iff.2 hacyclic)
      rw [← hg.order_eq_relaxedOrder horder]
      exact horder

end Graph

end CallGraph
