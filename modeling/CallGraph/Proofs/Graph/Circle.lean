import Mathlib.Data.Nat.Find
import CallGraph.Proofs.Graph.Search

/-!
# Circles

Nodes that lead to each other form the strongly connected parts of a graph.  A part that contains a
cycle is shown by a circle through its earliest node.

* `Adjacency.Together`, `Adjacency.Linked` — to be in one part, and in one that contains a cycle;
* `earliest?_eq_some_iff` — the earliest of some nodes is their minimum;
* `Adjacency.exists_wayBack` — in a part that contains a cycle **the search finds a way back**, so
  that a list of members never stands in for a circle;
* `Adjacency.Root.circle` — the path that is shown is a circle through the root of the part.
-/

namespace CallGraph

open Relation

namespace Adjacency

variable {a : Adjacency} {members way path : List Nat} {start i j : Nat}

/-! ### Parts -/

/-- Two nodes that lead to each other: they are in the same part. -/
def Together (a : Adjacency) (i j : Nat) : Prop :=
  ReflTransGen a.Leads i j ∧ ReflTransGen a.Leads j i

/-- Two nodes that lead to each other, each way along one edge or more. -/
def Linked (a : Adjacency) (i j : Nat) : Prop := TransGen a.Leads i j ∧ TransGen a.Leads j i

/-- The earliest node of a part that contains a cycle. -/
def Root (a : Adjacency) (i : Nat) : Prop := a.Linked i i ∧ ∀ j, a.Linked i j → i ≤ j

theorem Linked.symm (h : a.Linked i j) : a.Linked j i := ⟨h.2, h.1⟩

theorem Linked.refl_left (h : a.Linked i j) : a.Linked i i := ⟨h.1.trans h.2, h.1.trans h.2⟩

theorem Bounded.lt_of_linked (ha : a.Bounded) (h : a.Linked i j) : i < a.size := by
  obtain ⟨k, -, hlast⟩ := TransGen.tail'_iff.1 h.2
  exact ha k i hlast

theorem together_iff : a.Together i j ↔ j = i ∨ a.Linked i j := by
  constructor
  · rintro ⟨hforth, hback⟩
    rcases reflTransGen_iff_eq_or_transGen.1 hforth with heq | hforth
    · exact .inl heq
    · rcases reflTransGen_iff_eq_or_transGen.1 hback with heq | hback
      · exact .inl heq.symm
      · exact .inr ⟨hforth, hback⟩
  · rintro (rfl | h)
    · exact ⟨.refl, .refl⟩
    · exact ⟨h.1.to_reflTransGen, h.2.to_reflTransGen⟩

/-- All nodes of a part lie on cycles if one does. -/
theorem Linked.together_iff (h : a.Linked i i) : a.Together i j ↔ a.Linked i j := by
  rw [Adjacency.together_iff]
  exact or_iff_right_of_imp fun heq => heq ▸ h

theorem Together.linked_self (h : a.Together i j) (hi : a.Linked i i) : a.Linked j j :=
  (hi.together_iff.1 h).symm.refl_left

/-! ### The earliest node -/

theorem earliest?_eq_some_iff :
    earliest? members = some i ↔ i ∈ members ∧ ∀ j ∈ members, i ≤ j := by
  have hall : ∀ k, (members.all fun j => k ≤ j) = true ↔ ∀ j ∈ members, k ≤ j := by
    intro k
    simp only [List.all_eq_true, decide_eq_true_eq]
  unfold earliest?
  constructor
  · intro h
    have hfirst := List.find?_some h
    exact ⟨List.mem_of_find?_eq_some h, (hall i).1 hfirst⟩
  · rintro ⟨hi, hle⟩
    cases hfind : members.find? fun i => members.all fun j => i ≤ j with
    | none => exact absurd ((hall i).2 hle) (List.find?_eq_none.1 hfind i hi)
    | some k =>
      have hfirst := List.find?_some hfind
      have hk := (hall k).1 hfirst
      rw [Nat.le_antisymm (hk i hi) (hle k (List.mem_of_find?_eq_some hfind))]

theorem exists_earliest (h : members ≠ []) : ∃ i, earliest? members = some i := by
  obtain ⟨j, hj⟩ := List.exists_mem_of_ne_nil _ h
  classical
  have hexists : ∃ i, i ∈ members := ⟨j, hj⟩
  exact ⟨Nat.find hexists, earliest?_eq_some_iff.2
    ⟨Nat.find_spec hexists, fun k hk => Nat.find_min' hexists hk⟩⟩

/-- It does not matter in which order nodes are listed. -/
theorem earliest?_congr {members' : List Nat} (h : members.Perm members') :
    earliest? members = earliest? members' := by
  ext i
  rw [earliest?_eq_some_iff, earliest?_eq_some_iff, h.mem_iff]
  exact and_congr_right fun _ => forall_congr' fun j => by rw [h.mem_iff]

/-- The earliest node of a part that contains a cycle is its root. -/
theorem Linked.root (h : a.Linked i i) (hmembers : ∀ j, j ∈ members ↔ a.Together i j)
    (hfirst : earliest? members = some i) : a.Root i :=
  ⟨h, fun j hj =>
    (earliest?_eq_some_iff.1 hfirst).2 j ((hmembers j).2 (h.together_iff.2 hj))⟩

/-! ### The way back -/

/-- A search from the start that finds nothing has entered no node that leads back to the start. -/
theorem Sweeps.not_linked {s : Search} (hmembers : ∀ j, j ∈ members ↔ a.Linked start j)
    (h : a.Sweeps members start ⟨[start], none⟩ s (a.successors start)) :
    ¬a.Linked start start := by
  -- All nodes that have been entered are exhausted, the start included.
  have hall : ∀ x ∈ s.seen, a.Exhausted members start s.seen x := by
    intro x hx
    refine (h.exhausted x hx).elim (fun hmem => ?_) id
    obtain rfl := List.mem_singleton.1 hmem
    exact h.followed
  -- Hence all nodes of the part have been entered.
  have hentered : ∀ x, ReflTransGen a.Leads start x → TransGen a.Leads x start → x ∈ s.seen := by
    intro x hforth
    induction hforth with
    | refl => exact fun _ => h.grows List.mem_cons_self
    | tail hreach hleads ih =>
      intro hback
      have hx := ih (.head hleads hback)
      have hmem := (hmembers _).2 ⟨.tail' hreach hleads, hback⟩
      exact (hall _ hx _ hleads).2 hmem
  -- One of them leads back to the start, which an exhausted node does not.
  rintro ⟨hcycle, -⟩
  obtain ⟨x, hreach, hleads⟩ := TransGen.tail'_iff.1 hcycle
  exact (hall x (hentered x hreach (.single hleads)) start hleads).1 rfl

/-- **A way back is found** in each part that contains a cycle. -/
theorem exists_wayBack (hmembers : ∀ j, j ∈ members ↔ a.Linked start j)
    (hstart : a.Linked start start) :
    ∃ way, a.wayBack? members start = some way ∧ a.Closes members start way := by
  cases hfound : a.wayBack? members start with
  | some way =>
    have htrail : a.Trail members start [start] := {
      chain := List.isChain_singleton _
      nodup := List.nodup_cons.2 ⟨List.not_mem_nil, List.nodup_nil⟩
      inside := fun x hx => by
        obtain rfl := List.mem_singleton.1 hx
        exact (hmembers x).2 hstart
      last := rfl }
    exact ⟨way, rfl, seek_found htrail (List.Subset.refl _) rfl hfound⟩
  | none =>
    have hdepth := Nat.lt_succ_of_le (unseen_le_length members [start])
    have hsweeps := seek_sweeps (s := ⟨[start], none⟩) hdepth hfound
    exact absurd hstart (hsweeps.not_linked hmembers)

/-! ### Circles -/

/-- A circle goes along edges from its first node back to it, and meanwhile through nodes of the same
part, none of them twice. -/
structure Circle (a : Adjacency) (i : Nat) (path : List Nat) : Prop where
  /-- The circle starts and ends at the node and stays in its part. -/
  shape : ∃ interior, path = i :: interior ++ [i] ∧ (i :: interior).Nodup ∧
    ∀ x ∈ interior, a.Linked i x
  /-- The circle goes along edges. -/
  chain : path.IsChain a.Leads

/-- A way back, read in its direction, is a circle. -/
theorem Closes.circle (hmembers : ∀ j, j ∈ members ↔ a.Linked start j)
    (h : a.Closes members start way) : a.Circle start way.reverse := by
  obtain ⟨i, trail, rfl, htrail, hleads⟩ := h
  obtain ⟨rest, hrest⟩ : ∃ rest, i :: trail = rest ++ [start] :=
    List.getLast?_eq_some_iff.1 htrail.last
  have hinterior : (i :: trail).reverse = start :: rest.reverse := by
    rw [hrest, List.reverse_append]
    rfl
  refine ⟨⟨rest.reverse, ?_, ?_, fun x hx => ?_⟩, ?_⟩
  · rw [List.reverse_cons, hinterior]
  · rw [← hinterior]
    exact List.nodup_reverse.2 htrail.nodup
  · refine (hmembers x).1 (htrail.inside x ?_)
    rw [hrest]
    exact List.mem_append_left _ (List.mem_reverse.1 hx)
  · rw [List.isChain_reverse]
    exact List.isChain_cons_cons.2 ⟨hleads, htrail.chain⟩

/-- **The path that is shown** for a part with a cycle is a circle through its earliest node. -/
theorem Root.circle (h : a.Root start) (hmembers : ∀ j, j ∈ members ↔ a.Together start j) :
    earliest? members = some start ∧ (a.wayBack? members start).isSome ∧
      a.Circle start (a.cyclePath members) := by
  have hlinked : ∀ j, j ∈ members ↔ a.Linked start j := fun j =>
    (hmembers j).trans h.1.together_iff
  have hearliest : earliest? members = some start :=
    earliest?_eq_some_iff.2 ⟨(hlinked start).2 h.1, fun j hj => h.2 j ((hlinked j).1 hj)⟩
  obtain ⟨way, hway, hcloses⟩ := exists_wayBack hlinked h.1
  refine ⟨hearliest, Option.isSome_of_mem hway, ?_⟩
  rw [cyclePath, hearliest]
  simp only [hway]
  exact hcloses.circle hlinked

end Adjacency

end CallGraph
