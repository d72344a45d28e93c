import Mathlib.Data.List.Perm.Subperm
import CallGraph.Graph.Order
import CallGraph.Proofs.Graph.Search

/-!
# Placing nodes by counting

`Placement.run` decides with counters and a list of ready nodes which node comes next.  What it
decides is told here without either.

* `Placement.Counts` — the counter of a node that is not placed is the number of edges into it from
  nodes not placed, and the ready nodes are those whose counter is zero;
* `Placement.Counts.release`, `Placement.Counts.take` — one edge, and one node, keep this up;
* `Adjacency.Chosen` — the node to place next: **the earliest free one**, or, if a cycle may be
  broken and none is free, the earliest one left;
* `Adjacency.order_scheduled` — an order consists of nodes chosen one after the other, and ends when
  none can be chosen.
-/

namespace CallGraph

/-! ### Ascending lists -/

section

variable {i j : Nat} {xs : List Nat}

theorem mem_insertAscending : j ∈ insertAscending i xs ↔ j = i ∨ j ∈ xs := by
  induction xs with
  | nil => exact List.mem_cons
  | cons k xs ih =>
    rw [insertAscending]
    by_cases hle : i ≤ k
    · rw [if_pos hle, List.mem_cons]
    · rw [if_neg hle, List.mem_cons, ih, List.mem_cons]
      exact or_left_comm

theorem pairwise_insertAscending (h : xs.Pairwise (· < ·)) (hnew : i ∉ xs) :
    (insertAscending i xs).Pairwise (· < ·) := by
  induction xs with
  | nil => exact List.pairwise_singleton _ _
  | cons k xs ih =>
    obtain ⟨hk, hxs⟩ := List.pairwise_cons.1 h
    obtain ⟨hne, hnew⟩ := List.ne_and_not_mem_of_not_mem_cons hnew
    rw [insertAscending]
    by_cases hle : i ≤ k
    · rw [if_pos hle]
      refine List.pairwise_cons.2 ⟨fun j hj => ?_, h⟩
      rcases List.mem_cons.1 hj with rfl | hj
      · omega
      · have := hk j hj
        omega
    · rw [if_neg hle]
      refine List.pairwise_cons.2 ⟨fun j hj => ?_, ih hxs hnew⟩
      rcases mem_insertAscending.1 hj with rfl | hj
      · omega
      · exact hk j hj

/-- As many different numbers as there are below a bound are all of them. -/
theorem mem_of_length_le {size : Nat} (hnodup : xs.Nodup) (hlt : ∀ i ∈ xs, i < size)
    (hlength : size ≤ xs.length) (hi : i < size) : i ∈ xs := by
  have hsubset : xs ⊆ List.range size := fun j hj => List.mem_range.2 (hlt j hj)
  have hperm : xs.Perm (List.range size) :=
    (List.subperm_of_subset hnodup hsubset).perm_of_length_le (by rwa [List.length_range])
  exact hperm.mem_iff.2 (List.mem_range.2 hi)

end

/-! ### Counting edges -/

namespace Adjacency

variable {a : Adjacency} {placed : List Nat} {i j : Nat}

/-- How many edges lead into a node from nodes that are not placed. -/
def entering (a : Adjacency) (placed : List Nat) (j : Nat) : Nat :=
  (((List.range a.size).filter fun i => i ∉ placed).flatMap a.successors).count j

theorem lt_of_leads (h : a.Leads i j) : i < a.size := by
  unfold Leads successors at h
  by_cases hi : i < a.size
  · exact hi
  · rw [List.getD_eq_getElem?_getD, List.getElem?_eq_none (Nat.le_of_not_lt hi)] at h
    exact absurd h List.not_mem_nil

theorem map_successors (a : Adjacency) : (List.range a.size).map a.successors = a.rows := by
  refine List.ext_getElem (by rw [List.length_map, List.length_range]; rfl) fun i _ hi => ?_
  rw [List.getElem_map, List.getElem_range, successors, List.getD_eq_getElem?_getD,
    List.getElem?_eq_getElem hi]
  rfl

/-- At first all edges count. -/
theorem entering_nil (a : Adjacency) (j : Nat) : a.entering [] j = a.indegree j := by
  have hall : (List.range a.size).filter (fun i => i ∉ ([] : List Nat)) = List.range a.size :=
    List.filter_eq_self.2 fun i _ => decide_eq_true List.not_mem_nil
  rw [entering, hall, indegree, ← map_successors, List.flatMap_def]

/-- When a node is placed its edges no longer count. -/
theorem entering_concat (hi : i < a.size) (hnew : i ∉ placed) (j : Nat) :
    a.entering placed j = a.entering (placed ++ [i]) j + (a.successors i).count j := by
  have hnodup : ((List.range a.size).filter fun k => k ∉ placed).Nodup :=
    List.nodup_range.filter _
  have hmem : i ∈ (List.range a.size).filter fun k => k ∉ placed :=
    List.mem_filter.2 ⟨List.mem_range.2 hi, decide_eq_true hnew⟩
  have hrest : ((List.range a.size).filter fun k => k ∉ placed).erase i =
      (List.range a.size).filter fun k => k ∉ placed ++ [i] := by
    rw [hnodup.erase_eq_filter, List.filter_filter]
    refine List.filter_congr fun k _ => ?_
    rw [Bool.eq_iff_iff]
    simp only [Bool.and_eq_true, bne_iff_ne, decide_eq_true_eq, List.mem_append, List.mem_singleton,
      not_or, and_comm]
  have hperm := (List.perm_cons_erase hmem).flatMap_right a.successors
  rw [hrest, List.flatMap_cons] at hperm
  rw [entering, hperm.count_eq, List.count_append, Nat.add_comm]
  rfl

/-- No edge counts once all sources of edges are placed. -/
theorem entering_eq_zero_iff : a.entering placed j = 0 ↔ ∀ i, a.Leads i j → i ∈ placed := by
  rw [entering, List.count_eq_zero, List.mem_flatMap]
  constructor
  · intro h i hleads
    refine Decidable.byContradiction fun hnew => h ⟨i, List.mem_filter.2 ⟨?_, ?_⟩, hleads⟩
    · exact List.mem_range.2 (lt_of_leads hleads)
    · exact decide_eq_true hnew
  · rintro h ⟨i, hi, hleads⟩
    exact of_decide_eq_true (List.mem_filter.1 hi).2 (h i hleads)

/-! ### Choosing nodes -/

/-- The node is not placed, while all nodes that lead to it are. -/
def Free (a : Adjacency) (placed : List Nat) (i : Nat) : Prop :=
  i < a.size ∧ i ∉ placed ∧ ∀ j, a.Leads j i → j ∈ placed

/-- The node is not placed. -/
def Left (a : Adjacency) (placed : List Nat) (i : Nat) : Prop := i < a.size ∧ i ∉ placed

/-- The node to place next: the earliest free one, or, if a cycle may be broken and no node is free,
the earliest one left. -/
def Chosen (a : Adjacency) (relaxed : Bool) (placed : List Nat) (i : Nat) : Prop :=
  (a.Free placed i ∧ ∀ j, a.Free placed j → i ≤ j) ∨
    (relaxed = true ∧ (∀ j, ¬a.Free placed j) ∧ a.Left placed i ∧ ∀ j, a.Left placed j → i ≤ j)

/-- Nodes chosen one after the other. -/
inductive Scheduled (a : Adjacency) (relaxed : Bool) : List Nat → Prop
  /-- No node is placed. -/
  | nil : Scheduled a relaxed []
  /-- One more node is chosen. -/
  | concat {placed : List Nat} {i : Nat} (h : Scheduled a relaxed placed)
      (hi : a.Chosen relaxed placed i) : Scheduled a relaxed (placed ++ [i])

theorem Chosen.left {relaxed : Bool} (h : a.Chosen relaxed placed i) : a.Left placed i := by
  rcases h with ⟨⟨hlt, hnew, -⟩, -⟩ | ⟨-, -, hleft, -⟩
  · exact ⟨hlt, hnew⟩
  · exact hleft

end Adjacency

/-! ### The invariant of a placement -/

namespace Placement

variable {a : Adjacency} {p : Placement} {pending rest : List Nat} {i j k : Nat} {relaxed : Bool}

/-- Some nodes are placed, and of the edges of the last one those to the nodes `pending` are still to
be taken into account. -/
structure Counts (a : Adjacency) (p : Placement) (pending : List Nat) : Prop where
  /-- No node is placed twice. -/
  nodup : p.order.Nodup
  /-- Only nodes are placed. -/
  lt_size : ∀ i ∈ p.order, i < a.size
  /-- There is a counter for each node. -/
  length_waiting : p.waiting.length = a.size
  /-- The counter of a node that is not placed is the number of edges into it from nodes that are not
  placed, and of the edges still to be taken into account. -/
  waiting_eq : ∀ j < a.size, j ∉ p.order →
    p.waiting.getD j 0 = a.entering p.order j + pending.count j
  /-- The ready nodes are in ascending order, each once. -/
  pairwise_ready : p.ready.Pairwise (· < ·)
  /-- The ready nodes are those not placed whose counter is zero. -/
  mem_ready : ∀ j, j ∈ p.ready ↔ j < a.size ∧ j ∉ p.order ∧ p.waiting.getD j 0 = 0

/-! ### Taking an edge into account -/

theorem release_of_mem (h : j ∈ p.order) : p.release j = p := if_pos (List.contains_iff_mem.2 h)

theorem release_of_not_mem (h : j ∉ p.order) : p.release j = { p with
    waiting := p.waiting.set j (p.waiting.getD j 0 - 1)
    ready := if p.waiting.getD j 0 - 1 = 0 then insertAscending j p.ready else p.ready } :=
  if_neg fun hplaced => h (List.contains_iff_mem.1 hplaced)

theorem order_release (p : Placement) (j : Nat) : (p.release j).order = p.order := by
  by_cases h : j ∈ p.order
  · rw [release_of_mem h]
  · rw [release_of_not_mem h]

theorem length_waiting_release (p : Placement) (j : Nat) :
    (p.release j).waiting.length = p.waiting.length := by
  by_cases h : j ∈ p.order
  · rw [release_of_mem h]
  · rw [release_of_not_mem h]
    exact List.length_set

theorem getD_waiting_release_self (h : j ∉ p.order) (hj : j < p.waiting.length) :
    (p.release j).waiting.getD j 0 = p.waiting.getD j 0 - 1 := by
  rw [release_of_not_mem h, List.getD_eq_getElem?_getD, List.getElem?_set_self hj]
  rfl

theorem getD_waiting_release_of_ne (hne : k ≠ j) :
    (p.release j).waiting.getD k 0 = p.waiting.getD k 0 := by
  by_cases h : j ∈ p.order
  · rw [release_of_mem h]
  · rw [release_of_not_mem h, List.getD_eq_getElem?_getD, List.getElem?_set_ne hne.symm,
      List.getD_eq_getElem?_getD]

/-- A node becomes ready with the last edge into it. -/
theorem mem_ready_release (h : j ∉ p.order) :
    k ∈ (p.release j).ready ↔ (k = j ∧ p.waiting.getD j 0 - 1 = 0) ∨ k ∈ p.ready := by
  rw [release_of_not_mem h]
  by_cases hzero : p.waiting.getD j 0 - 1 = 0
  · rw [if_pos hzero, mem_insertAscending, and_iff_left hzero]
  · rw [if_neg hzero, or_iff_right fun hk => hzero hk.2]

theorem pairwise_ready_release (h : p.ready.Pairwise (· < ·)) (hnew : j ∉ p.ready) :
    (p.release j).ready.Pairwise (· < ·) := by
  by_cases hplaced : j ∈ p.order
  · rwa [release_of_mem hplaced]
  · rw [release_of_not_mem hplaced]
    by_cases hzero : p.waiting.getD j 0 - 1 = 0
    · simp only [if_pos hzero]
      exact pairwise_insertAscending h hnew
    · simp only [if_neg hzero]
      exact h

/-- **One edge** is taken into account. -/
theorem Counts.release (h : Counts a p (j :: pending)) (hj : j < a.size) :
    Counts a (p.release j) pending := by
  by_cases hplaced : j ∈ p.order
  · rw [release_of_mem hplaced]
    refine { h with waiting_eq := fun k hk hnew => ?_ }
    have hne : j ≠ k := fun hjk => hnew (hjk ▸ hplaced)
    rw [h.waiting_eq k hk hnew, List.count_cons_of_ne hne]
  · -- The edge is still counted, so that the node is not ready yet.
    have hcount : p.waiting.getD j 0 = a.entering p.order j + pending.count j + 1 := by
      rw [h.waiting_eq j hj hplaced, List.count_cons_self, Nat.add_assoc]
    have hnotready : j ∉ p.ready := by
      intro hmem
      have hzero := ((h.mem_ready j).1 hmem).2.2
      omega
    have hself : (p.release j).waiting.getD j 0 = p.waiting.getD j 0 - 1 :=
      getD_waiting_release_self hplaced (h.length_waiting ▸ hj)
    exact {
      nodup := p.order_release j ▸ h.nodup
      lt_size := p.order_release j ▸ h.lt_size
      length_waiting := (p.length_waiting_release j).trans h.length_waiting
      waiting_eq := fun k hk hnew => by
        rw [order_release] at hnew ⊢
        by_cases hkj : k = j
        · rw [hkj, hself, hcount, Nat.add_sub_cancel]
        · rw [getD_waiting_release_of_ne hkj, h.waiting_eq k hk hnew,
            List.count_cons_of_ne (Ne.symm hkj)]
      pairwise_ready := pairwise_ready_release h.pairwise_ready hnotready
      mem_ready := fun k => by
        rw [order_release, mem_ready_release hplaced]
        by_cases hkj : k = j
        · subst hkj
          rw [hself, or_iff_left hnotready]
          exact ⟨fun hk => ⟨hj, hplaced, hk.2⟩, fun hk => ⟨rfl, hk.2.2⟩⟩
        · rw [getD_waiting_release_of_ne hkj, ← h.mem_ready k, or_iff_right fun hk => hkj hk.1] }

/-- All pending edges are taken into account. -/
theorem Counts.foldl_release (h : Counts a p pending) (hpending : ∀ j ∈ pending, j < a.size) :
    Counts a (pending.foldl Placement.release p) [] ∧
      (pending.foldl Placement.release p).order = p.order := by
  induction pending generalizing p with
  | nil => exact ⟨h, rfl⟩
  | cons j pending ih =>
    obtain ⟨hcounts, horder⟩ := ih (h.release (hpending j List.mem_cons_self)) fun k hk =>
      hpending k (List.mem_cons_of_mem _ hk)
    exact ⟨hcounts, horder.trans (p.order_release j)⟩

/-- A node is placed; its edges are still to be taken into account. -/
theorem Counts.enter (h : Counts a p []) (hi : i < a.size) (hnew : i ∉ p.order)
    (hrest : rest.Pairwise (· < ·)) (hmem : ∀ j, j ∈ rest ↔ j ∈ p.ready ∧ j ≠ i) :
    Counts a { p with ready := rest, order := p.order ++ [i] } (a.successors i) := by
  have hplaced : ∀ j, j ∉ p.order ++ [i] ↔ j ∉ p.order ∧ j ≠ i := by
    intro j
    rw [List.mem_append, List.mem_singleton, not_or]
  exact {
    nodup := List.nodup_append.2 ⟨h.nodup, List.pairwise_singleton _ _, fun j hj k hk hjk =>
      hnew (List.mem_singleton.1 hk ▸ hjk ▸ hj)⟩
    lt_size := fun j hj => by
      rcases List.mem_append.1 hj with hj | hj
      · exact h.lt_size j hj
      · exact List.mem_singleton.1 hj ▸ hi
    length_waiting := h.length_waiting
    waiting_eq := fun j hj hnot => by
      obtain ⟨hnot, -⟩ := (hplaced j).1 hnot
      exact (h.waiting_eq j hj hnot).trans (Adjacency.entering_concat hi hnew j)
    pairwise_ready := hrest
    mem_ready := fun j => by
      show j ∈ rest ↔ j < a.size ∧ j ∉ p.order ++ [i] ∧ p.waiting.getD j 0 = 0
      rw [hmem, h.mem_ready, hplaced]
      constructor
      · rintro ⟨⟨hj, hnot, hzero⟩, hne⟩
        exact ⟨hj, ⟨hnot, hne⟩, hzero⟩
      · rintro ⟨hj, ⟨hnot, hne⟩, hzero⟩
        exact ⟨⟨hj, hnot, hzero⟩, hne⟩ }

/-- The ready nodes are the free ones. -/
theorem Counts.mem_ready_iff (h : Counts a p []) : j ∈ p.ready ↔ a.Free p.order j := by
  rw [h.mem_ready]
  refine and_congr_right fun hj => and_congr_right fun hnew => ?_
  rw [h.waiting_eq j hj hnew, ← Adjacency.entering_eq_zero_iff]
  rfl

/-- The first of the ready nodes is chosen, and the others are those behind it. -/
theorem Counts.chosen_of_ready (h : Counts a p []) (hready : p.ready = i :: rest) :
    a.Chosen relaxed p.order i ∧ rest.Pairwise (· < ·) ∧
      ∀ j, j ∈ rest ↔ j ∈ p.ready ∧ j ≠ i := by
  have hpairwise := h.pairwise_ready
  rw [hready] at hpairwise
  obtain ⟨hlt, hrest⟩ := List.pairwise_cons.1 hpairwise
  have hmem : i ∈ p.ready := hready ▸ List.mem_cons_self
  refine ⟨.inl ⟨h.mem_ready_iff.1 hmem, fun j hj => ?_⟩, hrest, fun j => ?_⟩
  · have hj := h.mem_ready_iff.2 hj
    rw [hready] at hj
    rcases List.mem_cons.1 hj with rfl | hj
    · exact Nat.le_refl _
    · exact Nat.le_of_lt (hlt j hj)
  · rw [hready, List.mem_cons]
    constructor
    · exact fun hj => ⟨.inr hj, Nat.ne_of_gt (hlt j hj)⟩
    · exact fun ⟨hj, hne⟩ => hj.resolve_left hne

theorem earliestLeft_eq_some_iff :
    p.earliestLeft a = some i ↔ a.Left p.order i ∧ ∀ j, a.Left p.order j → i ≤ j := by
  have hplaced : ∀ j, (!p.isPlaced j) = true ↔ j ∉ p.order := by
    intro j
    simp [isPlaced]
  rw [earliestLeft, List.find?_range_eq_some, hplaced, List.mem_range]
  constructor
  · rintro ⟨hnew, hlt, hbefore⟩
    refine ⟨⟨hlt, hnew⟩, fun j hj => Nat.le_of_not_lt fun hji => ?_⟩
    have hskipped := hbefore j hji
    rw [(hplaced j).2 hj.2] at hskipped
    exact absurd hskipped (by simp)
  · rintro ⟨⟨hlt, hnew⟩, hle⟩
    refine ⟨hnew, hlt, fun j hji => ?_⟩
    rw [Bool.not_eq_true', Bool.eq_false_iff, Ne, hplaced]
    exact fun hj => Nat.not_le_of_lt hji (hle j ⟨hji.trans hlt, hj⟩)

/-- Without a ready node the earliest one left is chosen, if a cycle may be broken. -/
theorem Counts.chosen_iff (h : Counts a p []) (hready : p.ready = []) :
    a.Chosen relaxed p.order i ↔ relaxed = true ∧ p.earliestLeft a = some i := by
  have hnone : ∀ j, ¬a.Free p.order j := fun j hj => by
    have hj := h.mem_ready_iff.2 hj
    rw [hready] at hj
    exact absurd hj List.not_mem_nil
  rw [earliestLeft_eq_some_iff, Adjacency.Chosen, or_iff_right fun hfree => hnone i hfree.1,
    and_iff_right hnone]

/-- **The node to place next** is the one that is chosen; there is none if none can be chosen. -/
theorem Counts.next?_cases (h : Counts a p []) (relaxed : Bool) :
    (∃ i rest, p.next? a relaxed = some (i, { p with ready := rest }) ∧
        a.Chosen relaxed p.order i ∧ rest.Pairwise (· < ·) ∧
        ∀ j, j ∈ rest ↔ j ∈ p.ready ∧ j ≠ i) ∨
      (p.next? a relaxed = none ∧ ∀ i, ¬a.Chosen relaxed p.order i) := by
  cases hready : p.ready with
  | cons i rest =>
    have hmem : i ∈ p.ready := hready ▸ List.mem_cons_self
    have hnew : ¬p.isPlaced i := by
      simpa [isPlaced] using ((h.mem_ready i).1 hmem).2.1
    refine .inl ⟨i, rest, ?_, hready ▸ h.chosen_of_ready hready⟩
    rw [next?, hready, List.dropWhile_cons_of_neg hnew]
  | nil =>
    have hnext : p.next? a relaxed =
        if relaxed then (p.earliestLeft a).map fun i => (i, { p with ready := [] }) else none := by
      rw [next?, hready, List.dropWhile_nil]
    have hchosen : ∀ i, a.Chosen relaxed p.order i ↔ relaxed = true ∧ p.earliestLeft a = some i :=
      fun _ => h.chosen_iff hready
    rw [hnext]
    cases relaxed with
    | false => exact .inr ⟨rfl, fun i hi => Bool.false_ne_true ((hchosen i).1 hi).1⟩
    | true =>
      cases hearliest : p.earliestLeft a with
      | none =>
        refine .inr ⟨rfl, fun i hi => ?_⟩
        exact absurd (hearliest.symm.trans ((hchosen i).1 hi).2).symm (Option.some_ne_none i)
      | some i =>
        refine .inl ⟨i, [], rfl, (hchosen i).2 ⟨rfl, hearliest⟩, List.Pairwise.nil, fun j => ?_⟩
        exact iff_of_false List.not_mem_nil fun hj => List.not_mem_nil hj.1

/-- The node to place next is the one that is chosen, and when it is placed all its edges are still to
be taken into account. -/
theorem Counts.take (h : Counts a p []) {q : Placement} (hnext : p.next? a relaxed = some (i, q)) :
    a.Chosen relaxed p.order i ∧ (q.order = p.order ∧ q.waiting = p.waiting) ∧
      Counts a { q with order := q.order ++ [i] } (a.successors i) := by
  rcases h.next?_cases relaxed with ⟨k, rest, heq, hchosen, hrest, hmem⟩ | ⟨heq, -⟩
  · rw [heq] at hnext
    obtain ⟨rfl, rfl⟩ := Prod.mk.inj (Option.some.inj hnext)
    obtain ⟨hlt, hnew⟩ := hchosen.left
    exact ⟨hchosen, ⟨rfl, rfl⟩, h.enter hlt hnew hrest hmem⟩
  · rw [heq] at hnext
    exact absurd hnext (Option.some_ne_none _).symm

/-- **A step** places the node that is chosen. -/
theorem Counts.step (ha : a.Bounded) (h : Counts a p []) {q : Placement}
    (hnext : p.next? a relaxed = some (i, q)) :
    a.Chosen relaxed p.order i ∧ Counts a (q.place a i) [] ∧
      (q.place a i).order = p.order ++ [i] := by
  obtain ⟨hchosen, ⟨horder, -⟩, hcounts⟩ := h.take hnext
  obtain ⟨hcounts, hplaced⟩ := hcounts.foldl_release fun j hj => ha i j hj
  exact ⟨hchosen, hcounts, hplaced.trans (congrArg (· ++ [i]) horder)⟩

/-- **A run** places nodes that are chosen one after the other, until none can be chosen. -/
theorem Counts.run (ha : a.Bounded) (h : Counts a p []) (hscheduled : a.Scheduled relaxed p.order)
    {count : Nat} (hcount : a.size ≤ count + p.order.length) :
    Counts a (Placement.run a relaxed count p) [] ∧
      a.Scheduled relaxed (Placement.run a relaxed count p).order ∧
      ∀ i, ¬a.Chosen relaxed (Placement.run a relaxed count p).order i := by
  induction count generalizing p with
  | zero =>
    refine ⟨h, hscheduled, fun i hi => hi.left.2 ?_⟩
    rw [Nat.zero_add] at hcount
    exact mem_of_length_le h.nodup h.lt_size hcount hi.left.1
  | succ count ih =>
    cases hnext : p.next? a relaxed with
    | none =>
      have hrun : Placement.run a relaxed (count + 1) p = p := by
        rw [Placement.run, hnext]
      rw [hrun]
      refine ⟨h, hscheduled, ?_⟩
      rcases h.next?_cases relaxed with ⟨i, rest, heq, -⟩ | ⟨-, hnone⟩
      · rw [heq] at hnext
        exact absurd hnext (Option.some_ne_none _)
      · exact hnone
    | some next =>
      obtain ⟨i, q⟩ := next
      obtain ⟨hchosen, hcounts, horder⟩ := h.step ha hnext
      have hrun : Placement.run a relaxed (count + 1) p =
          Placement.run a relaxed count (q.place a i) := by
        rw [Placement.run, hnext]
      rw [hrun]
      refine ih hcounts ?_ ?_
      · rw [horder]
        exact hscheduled.concat hchosen
      · rw [horder, List.length_append, List.length_singleton]
        omega

theorem getD_waiting_initial (hj : j < a.size) : (initial a).waiting.getD j 0 = a.indegree j := by
  rw [initial, List.getD_eq_getElem?_getD, List.getElem?_map, List.getElem?_range hj]
  rfl

/-- Nothing is placed at first. -/
theorem counts_initial (a : Adjacency) : Counts a (.initial a) [] where
  nodup := List.nodup_nil
  lt_size _ hi := absurd hi List.not_mem_nil
  length_waiting := (List.length_map _).trans List.length_range
  waiting_eq j hj _ := by
    rw [getD_waiting_initial hj, ← Adjacency.entering_nil]
    rfl
  pairwise_ready := List.Pairwise.filter _ List.pairwise_lt_range
  mem_ready j := by
    show j ∈ (List.range a.size).filter (fun i => a.indegree i = 0) ↔ _
    rw [List.mem_filter, List.mem_range, decide_eq_true_eq]
    refine and_congr_right fun hj => ?_
    rw [getD_waiting_initial hj]
    exact (and_iff_right List.not_mem_nil).symm

end Placement

/-- **An order** consists of nodes chosen one after the other, and ends when none can be chosen. -/
theorem Adjacency.order_scheduled {a : Adjacency} (ha : a.Bounded) (relaxed : Bool) :
    (a.order relaxed).Nodup ∧ (∀ i ∈ a.order relaxed, i < a.size) ∧
      a.Scheduled relaxed (a.order relaxed) ∧ ∀ i, ¬a.Chosen relaxed (a.order relaxed) i := by
  have hnil : a.Scheduled relaxed (Placement.initial a).order := .nil
  obtain ⟨hcounts, hscheduled, hnone⟩ :=
    (Placement.counts_initial a).run ha hnil (Nat.le_add_right a.size _)
  exact ⟨hcounts.nodup, hcounts.lt_size, hscheduled, hnone⟩

end CallGraph
