import Mathlib.Data.Finset.Card
import Mathlib.Data.List.Chain
import CallGraph.Graph.Cycle
import CallGraph.Proofs.Graph.Relation

/-!
# Depth-first search

`Adjacency.seek` looks for a way back to a node among some members, and never enters a node twice.

* `Adjacency.Trail` — the way from the start to the node where the search stands;
* `Adjacency.seek_found` — what is found is a trail whose last node leads back to the start;
* `Adjacency.Sweeps` — what a search has done that has found nothing;
* `Adjacency.seek_sweeps` — **a search that finds nothing** has followed every edge of every node
  that it has entered;
* `Adjacency.mem_reach_iff` — `Adjacency.reach`, which is a search for nothing, enters what can be
  reached by one edge or more.
-/

namespace CallGraph

open Relation

namespace Adjacency

variable {a : Adjacency} {members trail way js : List Nat} {start depth i j : Nat}
  {s s' s'' : Search}

/-! ### One edge -/

/-- The search behind one more edge, which leads to `j`. -/
def visit (a : Adjacency) (members : List Nat) (start depth : Nat) (trail : List Nat) (s : Search)
    (j : Nat) : Search :=
  if s.found.isSome then s
  else if j = start then { s with found := some (start :: trail) }
  else if members.contains j && !s.seen.contains j then
    a.seek members start depth (j :: trail) j { s with seen := j :: s.seen }
  else s

theorem seek_succ :
    a.seek members start (depth + 1) trail i s =
      (a.successors i).foldl (a.visit members start depth trail) s :=
  rfl

/-- An edge is skipped once something is found.  Before, it closes the way, or leads to a node that
is entered, or to one that is not. -/
theorem visit_cases (a : Adjacency) (members : List Nat) (start depth : Nat) (trail : List Nat)
    (s : Search) (j : Nat) :
    (s.found.isSome ∧ a.visit members start depth trail s j = s) ∨
      (s.found = none ∧ j = start ∧
        a.visit members start depth trail s j = { s with found := some (start :: trail) }) ∨
      (s.found = none ∧ j ≠ start ∧ j ∈ members ∧ j ∉ s.seen ∧
        a.visit members start depth trail s j =
          a.seek members start depth (j :: trail) j { s with seen := j :: s.seen }) ∨
      (s.found = none ∧ j ≠ start ∧ (j ∈ members → j ∈ s.seen) ∧
        a.visit members start depth trail s j = s) := by
  unfold visit
  cases hfound : s.found with
  | some way => exact .inl ⟨rfl, rfl⟩
  | none =>
    rw [if_neg (by simp)]
    by_cases hstart : j = start
    · exact .inr (.inl ⟨rfl, hstart, if_pos hstart⟩)
    · rw [if_neg hstart]
      by_cases henter : j ∈ members ∧ j ∉ s.seen
      · exact .inr (.inr (.inl ⟨rfl, hstart, henter.1, henter.2, if_pos (by simpa using henter)⟩))
      · refine .inr (.inr (.inr ⟨rfl, hstart, fun hj => ?_, if_neg (by simpa using henter)⟩))
        exact Decidable.byContradiction fun hseen => henter ⟨hj, hseen⟩

/-- Once something is found, the search is over. -/
theorem foldl_visit_of_found (h : s.found.isSome) :
    js.foldl (a.visit members start depth trail) s = s := by
  induction js with
  | nil => rfl
  | cons j js ih =>
    have hvisit : a.visit members start depth trail s j = s := if_pos h
    rw [List.foldl_cons, hvisit, ih]

theorem found_eq_none_of_foldl (h : (js.foldl (a.visit members start depth trail) s).found = none) :
    s.found = none := by
  cases hfound : s.found with
  | none => rfl
  | some way =>
    have hsome : s.found.isSome := by rw [hfound]; rfl
    rw [foldl_visit_of_found hsome, hfound] at h
    exact h

/-! ### What the search enters -/

theorem seen_subset_seek : s.seen ⊆ (a.seek members start depth trail i s).seen := by
  induction depth generalizing trail i s with
  | zero => exact List.Subset.refl _
  | succ depth ih =>
    rw [seek_succ]
    refine List.foldlRecOn (motive := fun s' : Search => s.seen ⊆ s'.seen) _ _ (List.Subset.refl _)
      fun s' hs' j _ => ?_
    rcases a.visit_cases members start depth trail s' j with ⟨-, heq⟩ | ⟨-, -, heq⟩ |
      ⟨-, -, -, -, heq⟩ | ⟨-, -, -, heq⟩ <;> rw [heq]
    · exact hs'
    · exact hs'
    · exact fun x hx => ih (List.mem_cons_of_mem _ (hs' hx))
    · exact hs'

/-- A node that is entered can be reached. -/
theorem transGen_of_mem_seek {x : Nat} (h : x ∈ (a.seek members start depth trail i s).seen) :
    x ∈ s.seen ∨ TransGen a.Leads i x := by
  induction depth generalizing trail i s with
  | zero => exact .inl h
  | succ depth ih =>
    rw [seek_succ] at h
    revert h
    refine List.foldlRecOn (motive := fun s' : Search =>
      x ∈ s'.seen → x ∈ s.seen ∨ TransGen a.Leads i x) _ _ .inl fun s' hs' j hj => ?_
    rcases a.visit_cases members start depth trail s' j with ⟨-, heq⟩ | ⟨-, -, heq⟩ |
      ⟨-, -, -, -, heq⟩ | ⟨-, -, -, heq⟩ <;> rw [heq]
    · exact hs'
    · exact hs'
    · intro hx
      rcases ih hx with hx | hx
      · rcases List.mem_cons.1 hx with rfl | hx
        · exact .inr (.single hj)
        · exact hs' hx
      · exact .inr (.head hj hx)
    · exact hs'

/-! ### What the search finds -/

/-- The way from the start to a node, the last node first: along edges, through members only, and
through none twice. -/
structure Trail (a : Adjacency) (members : List Nat) (start : Nat) (trail : List Nat) : Prop where
  /-- Each node is led to by the one behind it. -/
  chain : trail.IsChain fun j i => a.Leads i j
  /-- No node occurs twice. -/
  nodup : trail.Nodup
  /-- All nodes are members. -/
  inside : ∀ x ∈ trail, x ∈ members
  /-- The way begins at the start. -/
  last : trail.getLast? = some start

theorem Trail.cons (h : a.Trail members start trail) (hi : trail.head? = some i)
    (hleads : a.Leads i j) (hmem : j ∈ members) (hnew : j ∉ trail) :
    a.Trail members start (j :: trail) where
  chain := by
    cases trail with
    | nil => cases hi
    | cons k trail =>
      obtain rfl := Option.some.inj hi
      exact List.isChain_cons_cons.2 ⟨hleads, h.chain⟩
  nodup := List.nodup_cons.2 ⟨hnew, h.nodup⟩
  inside x hx := by
    rcases List.mem_cons.1 hx with rfl | hx
    · exact hmem
    · exact h.inside x hx
  last := by
    cases trail with
    | nil => cases hi
    | cons k trail => exact (List.getLast?_cons_cons).trans h.last

/-- A trail whose last node leads back to the start. -/
def Closes (a : Adjacency) (members : List Nat) (start : Nat) (way : List Nat) : Prop :=
  ∃ i trail, way = start :: i :: trail ∧ a.Trail members start (i :: trail) ∧ a.Leads i start

/-- **What is found** closes. -/
theorem seek_found (htrail : a.Trail members start (i :: trail)) (hseen : i :: trail ⊆ s.seen)
    (hs : s.found = none) (h : (a.seek members start depth (i :: trail) i s).found = some way) :
    a.Closes members start way := by
  induction depth generalizing trail i s way with
  | zero =>
    rw [seek, hs] at h
    cases h
  | succ depth ih =>
    rw [seek_succ] at h
    -- Along the edges the trail remains entered, and what has been found so far closes.
    have hall : i :: trail ⊆ ((a.successors i).foldl
          (a.visit members start depth (i :: trail)) s).seen ∧
        ∀ way, ((a.successors i).foldl (a.visit members start depth (i :: trail)) s).found =
          some way → a.Closes members start way := by
      refine List.foldlRecOn (motive := fun s' : Search =>
        i :: trail ⊆ s'.seen ∧ ∀ way, s'.found = some way → a.Closes members start way) _ _
        ⟨hseen, fun way hway => absurd (hs.symm.trans hway) (Option.some_ne_none way).symm⟩ ?_
      rintro s' ⟨hseen', hfound'⟩ j hj
      rcases a.visit_cases members start depth (i :: trail) s' j with ⟨-, heq⟩ | ⟨-, rfl, heq⟩ |
        ⟨hnone, -, hmem, hnew, heq⟩ | ⟨-, -, -, heq⟩ <;> rw [heq]
      · exact ⟨hseen', hfound'⟩
      · refine ⟨hseen', fun way hway => ⟨i, trail, ?_, htrail, hj⟩⟩
        exact (Option.some.inj hway).symm
      · refine ⟨fun x hx => seen_subset_seek (List.mem_cons_of_mem _ (hseen' hx)),
          fun way hway => ?_⟩
        have hlonger : a.Trail members start (j :: i :: trail) :=
          htrail.cons rfl hj hmem fun hx => hnew (hseen' hx)
        exact ih (s := { s' with seen := j :: s'.seen }) hlonger (List.cons_subset_cons j hseen')
          hnone hway
      · exact ⟨hseen', hfound'⟩
    exact hall.2 way h

/-! ### A search that finds nothing -/

/-- The edges of a node lead to no start, and to members only if they have been entered. -/
def Exhausted (a : Adjacency) (members : List Nat) (start : Nat) (seen : List Nat) (x : Nat) :
    Prop :=
  ∀ j, a.Leads x j → j ≠ start ∧ (j ∈ members → j ∈ seen)

theorem Exhausted.mono {seen seen' : List Nat} {x : Nat} (h : a.Exhausted members start seen x)
    (hsub : seen ⊆ seen') : a.Exhausted members start seen' x :=
  fun j hj => ⟨(h j hj).1, fun hmem => hsub ((h j hj).2 hmem)⟩

/-- From one search to another, edges to the nodes `js` have been followed in vain. -/
structure Sweeps (a : Adjacency) (members : List Nat) (start : Nat) (s s' : Search) (js : List Nat) :
    Prop where
  /-- Nothing that was entered is forgotten. -/
  grows : s.seen ⊆ s'.seen
  /-- The nodes entered in between are exhausted. -/
  exhausted : ∀ x ∈ s'.seen, x ∈ s.seen ∨ a.Exhausted members start s'.seen x
  /-- The edges have led to no start, and to members only if they are entered now. -/
  followed : ∀ j ∈ js, j ≠ start ∧ (j ∈ members → j ∈ s'.seen)

theorem Sweeps.refl (s : Search) : a.Sweeps members start s s [] where
  grows := List.Subset.refl _
  exhausted _ hx := .inl hx
  followed _ hj := absurd hj List.not_mem_nil

theorem Sweeps.cons (h : a.Sweeps members start s s' [j]) (h' : a.Sweeps members start s' s'' js) :
    a.Sweeps members start s s'' (j :: js) where
  grows := List.Subset.trans h.grows h'.grows
  exhausted x hx := by
    rcases h'.exhausted x hx with hx | hx
    · exact (h.exhausted x hx).imp_right fun hx => hx.mono h'.grows
    · exact .inr hx
  followed k hk := by
    rcases List.mem_cons.1 hk with rfl | hk
    · obtain ⟨hne, hseen⟩ := h.followed k List.mem_cons_self
      exact ⟨hne, fun hmem => h'.grows (hseen hmem)⟩
    · exact h'.followed k hk

/-- An edge that leads to no start, and to a member only if that is entered, changes nothing. -/
theorem Sweeps.skip (hne : j ≠ start) (hseen : j ∈ members → j ∈ s.seen) :
    a.Sweeps members start s s [j] where
  grows := List.Subset.refl _
  exhausted _ hx := .inl hx
  followed k hk := by
    obtain rfl := List.mem_singleton.1 hk
    exact ⟨hne, hseen⟩

/-- An edge leads to a node that is entered, and whose edges are followed in vain. -/
theorem Sweeps.enter (hne : j ≠ start)
    (h : a.Sweeps members start { s with seen := j :: s.seen } s' (a.successors j)) :
    a.Sweeps members start s s' [j] where
  grows x hx := h.grows (List.mem_cons_of_mem _ hx)
  exhausted x hx := by
    rcases h.exhausted x hx with hx | hx
    · rcases List.mem_cons.1 hx with rfl | hx
      · exact .inr h.followed
      · exact .inl hx
    · exact .inr hx
  followed k hk := by
    obtain rfl := List.mem_singleton.1 hk
    exact ⟨hne, fun _ => h.grows List.mem_cons_self⟩

/-- How many members have not been entered. -/
def unseen (members seen : List Nat) : Nat := (members.toFinset \ seen.toFinset).card

theorem unseen_le (members : List Nat) {seen seen' : List Nat} (h : seen ⊆ seen') :
    unseen members seen' ≤ unseen members seen :=
  Finset.card_le_card fun x hx => by
    simp only [Finset.mem_sdiff, List.mem_toFinset] at hx ⊢
    exact ⟨hx.1, fun hmem => hx.2 (h hmem)⟩

theorem unseen_cons_lt {seen : List Nat} (hmem : j ∈ members) (hnew : j ∉ seen) :
    unseen members (j :: seen) < unseen members seen := by
  refine Finset.card_lt_card ⟨fun x hx => ?_, fun hsub => ?_⟩
  · simp only [Finset.mem_sdiff, List.mem_toFinset] at hx ⊢
    exact ⟨hx.1, fun hmem => hx.2 (List.mem_cons_of_mem _ hmem)⟩
  · have hj : j ∈ members.toFinset \ (j :: seen).toFinset := hsub (by simp [hmem, hnew])
    simp at hj

theorem unseen_le_length (members seen : List Nat) : unseen members seen ≤ members.length :=
  (Finset.card_le_card Finset.sdiff_subset).trans (List.toFinset_card_le members)

/-- **A search that finds nothing**, and that is allowed to go deeper than there are members left,
has followed all edges of all nodes that it has entered. -/
theorem seek_sweeps (hdepth : unseen members s.seen < depth)
    (h : (a.seek members start depth trail i s).found = none) :
    a.Sweeps members start s (a.seek members start depth trail i s) (a.successors i) := by
  induction depth generalizing trail i s with
  | zero => exact absurd hdepth (Nat.not_lt_zero _)
  | succ depth ih =>
    rw [seek_succ] at h ⊢
    generalize a.successors i = js at h ⊢
    induction js generalizing s with
    | nil => exact .refl s
    | cons j js ihjs =>
      rw [List.foldl_cons] at h ⊢
      have hnone := found_eq_none_of_foldl h
      have hone : a.Sweeps members start s (a.visit members start depth trail s j) [j] := by
        rcases a.visit_cases members start depth trail s j with ⟨hsome, heq⟩ | ⟨-, -, heq⟩ |
          ⟨-, hne, hmem, hnew, heq⟩ | ⟨-, hne, hseen, heq⟩ <;> rw [heq] at hnone ⊢
        · rw [hnone] at hsome
          exact absurd hsome (by simp)
        · cases hnone
        · have hless := unseen_cons_lt hmem hnew
          exact .enter hne (ih (s := { s with seen := j :: s.seen }) (by simp only; omega) hnone)
        · exact .skip hne hseen
      have hle := unseen_le members hone.grows
      exact hone.cons (ihjs (by omega) h)

/-! ### What can be reached -/

/-- No edge leads beyond the nodes. -/
def Bounded (a : Adjacency) : Prop := ∀ i j, a.Leads i j → j < a.size

/-- Exploring is searching for what cannot be found. -/
theorem seek_size (ha : a.Bounded) (depth : Nat) (trail : List Nat) (i : Nat) (seen : List Nat) :
    a.seek (List.range a.size) a.size depth trail i ⟨seen, none⟩ =
      ⟨a.explore depth i seen, none⟩ := by
  induction depth generalizing trail i seen with
  | zero => rfl
  | succ depth ih =>
    rw [seek_succ, explore]
    have hlt : ∀ j ∈ a.successors i, j < a.size := fun j hj => ha i j hj
    generalize a.successors i = js at hlt ⊢
    induction js generalizing seen with
    | nil => rfl
    | cons j js ihjs =>
      have hj := hlt j List.mem_cons_self
      have hvisit : a.visit (List.range a.size) a.size depth trail ⟨seen, none⟩ j =
          ⟨if seen.contains j then seen else a.explore depth j (j :: seen), none⟩ := by
        unfold visit
        rw [if_neg (by simp), if_neg hj.ne]
        by_cases hseen : j ∈ seen
        · rw [if_neg (by simp [hseen]), if_pos (by simpa using hseen)]
        · rw [if_pos (by simp [hseen, hj]), if_neg (by simpa using hseen), ih]
      rw [List.foldl_cons, List.foldl_cons, hvisit]
      exact ihjs _ fun k hk => hlt k (List.mem_cons_of_mem _ hk)

/-- **What is reached** is what one edge or more lead to. -/
theorem mem_reach_iff (ha : a.Bounded) : j ∈ a.reach i ↔ TransGen a.Leads i j := by
  have hsize := seek_size ha (a.size + 1) [] i []
  have hreach :
      (a.seek (List.range a.size) a.size (a.size + 1) [] i ⟨[], none⟩).seen = a.reach i := by
    rw [hsize]
    rfl
  rw [← hreach]
  constructor
  · exact fun hj => (transGen_of_mem_seek hj).resolve_left List.not_mem_nil
  · have hfuel : unseen (List.range a.size) [] < a.size + 1 :=
      Nat.lt_succ_of_le ((unseen_le_length _ []).trans_eq List.length_range)
    have hsweeps := seek_sweeps (s := ⟨[], none⟩) hfuel (by rw [hsize])
    intro hpath
    induction hpath with
    | single hleads => exact (hsweeps.followed _ hleads).2 (List.mem_range.2 (ha _ _ hleads))
    | tail _ hleads ih =>
      have hexhausted := (hsweeps.exhausted _ ih).resolve_left List.not_mem_nil
      exact (hexhausted _ hleads).2 (List.mem_range.2 (ha _ _ hleads))

end Adjacency

end CallGraph
