import Mathlib.Data.List.Basic
import Mathlib.Data.List.Induction

/-!
# First occurrences

`firsts key xs` keeps of all elements with the same key the first one, in order.

* `firsts_concat` — one more element is kept if and only if its key is new;
* `mem_map_firsts`, `nodup_map_firsts` — no key is lost, and none is kept twice;
* `filter_firsts`, `mem_firsts_iff` — what is kept is the first element of its key.
-/

namespace CallGraph

variable {α κ : Type} [DecidableEq κ] {key : α → κ}

/-- The first element of each key, in order. -/
def firsts (key : α → κ) (xs : List α) : List α := xs.eraseDupsBy fun a b => key a == key b

theorem firsts_cons (key : α → κ) (x : α) (xs : List α) :
    firsts key (x :: xs) = x :: firsts key (xs.filter fun y => key y ≠ key x) := by
  rw [firsts, List.eraseDupsBy_cons]
  have hkeys : (fun y => decide ((key y == key x) = false)) = fun y => decide (key y ≠ key x) := by
    funext y
    simp only [beq_eq_false_iff_ne, ne_eq]
  rw [hkeys]
  rfl

/-- One more element is kept if its key is new. -/
theorem firsts_concat (key : α → κ) (xs : List α) (y : α) :
    firsts key (xs ++ [y]) =
      if key y ∈ xs.map key then firsts key xs else firsts key xs ++ [y] := by
  -- The elements behind the first are filtered before they are looked at, so that the induction is
  -- on the length.
  induction hn : xs.length using Nat.strongRecOn generalizing xs with
  | ind n ih =>
    cases xs with
    | nil => rfl
    | cons x xs =>
      have hlt : (xs.filter fun z => key z ≠ key x).length < n := by
        have hle := List.length_filter_le (fun z => decide (key z ≠ key x)) xs
        rw [List.length_cons] at hn
        omega
      rw [List.cons_append, firsts_cons, firsts_cons, List.filter_append]
      by_cases hy : key y = key x
      · have hmem : key y ∈ (x :: xs).map key := by
          rw [hy]
          exact List.mem_cons_self
        rw [if_pos hmem, List.filter_singleton]
        simp [hy]
      · have hmem : key y ∈ (xs.filter fun z => key z ≠ key x).map key ↔
            key y ∈ (x :: xs).map key := by
          simp only [List.mem_map, List.mem_filter, List.mem_cons, decide_eq_true_eq]
          constructor
          · rintro ⟨z, ⟨hz, -⟩, hkey⟩
            exact ⟨z, Or.inr hz, hkey⟩
          · rintro ⟨z, rfl | hz, hkey⟩
            · exact absurd hkey.symm hy
            · exact ⟨z, ⟨hz, hkey ▸ hy⟩, hkey⟩
        rw [List.filter_singleton, show decide (key y ≠ key x) = true from decide_eq_true hy,
          cond_true, ih _ hlt _ rfl]
        by_cases hnew : key y ∈ (x :: xs).map key
        · rw [if_pos hnew, if_pos (hmem.2 hnew)]
        · rw [if_neg hnew, if_neg fun h => hnew (hmem.1 h), List.cons_append]

/-- No key is lost. -/
theorem mem_map_firsts {xs : List α} {k : κ} : k ∈ (firsts key xs).map key ↔ k ∈ xs.map key := by
  induction xs using List.reverseRecOn with
  | nil => rfl
  | append_singleton xs y ih =>
    rw [firsts_concat, List.map_append, List.mem_append, ← ih]
    by_cases hy : key y ∈ xs.map key
    · rw [if_pos hy]
      refine ⟨Or.inl, fun h => h.elim id fun hk => ?_⟩
      rw [ih]
      obtain rfl := List.mem_singleton.1 hk
      exact hy
    · rw [if_neg hy, List.map_append, List.mem_append]

/-- The order is kept. -/
theorem firsts_sublist (key : α → κ) (xs : List α) : (firsts key xs).Sublist xs := by
  induction xs using List.reverseRecOn with
  | nil => exact List.nil_sublist _
  | append_singleton xs y ih =>
    rw [firsts_concat]
    split
    · exact ih.trans (List.sublist_append_left xs [y])
    · exact ih.append_right [y]

/-- No key is kept twice. -/
theorem nodup_map_firsts (key : α → κ) (xs : List α) : ((firsts key xs).map key).Nodup := by
  induction xs using List.reverseRecOn with
  | nil => exact List.nodup_nil
  | append_singleton xs y ih =>
    rw [firsts_concat]
    split
    · exact ih
    · rename_i hy
      rw [List.map_append, List.nodup_append]
      refine ⟨ih, List.pairwise_singleton _ _, fun a ha b hb hab => hy ?_⟩
      rw [← mem_map_firsts, ← List.mem_singleton.1 hb, ← hab]
      exact ha

/-- Of each key the first element is kept. -/
theorem filter_firsts (key : α → κ) (xs : List α) (k : κ) :
    (firsts key xs).filter (fun x => key x = k) = (xs.filter fun x => key x = k).take 1 := by
  induction xs using List.reverseRecOn with
  | nil => rfl
  | append_singleton xs y ih =>
    rw [firsts_concat, List.filter_append, List.filter_singleton]
    by_cases hy : key y = k
    · rw [show decide (key y = k) = true from decide_eq_true hy, cond_true]
      by_cases hold : key y ∈ xs.map key
      · obtain ⟨x, hx, hkey⟩ := List.mem_map.1 hold
        have hmem : x ∈ xs.filter fun x => key x = k :=
          List.mem_filter.2 ⟨hx, decide_eq_true (hkey.trans hy)⟩
        have hlength := List.length_pos_of_mem hmem
        rw [if_pos hold, ih, List.take_append_of_le_length (by omega)]
      · have hnone : xs.filter (fun x => key x = k) = [] := by
          refine List.filter_eq_nil_iff.2 fun x hx hkey => hold ?_
          exact List.mem_map.2 ⟨x, hx, (of_decide_eq_true hkey).trans hy.symm⟩
        rw [if_neg hold, List.filter_append, ih, hnone, List.filter_singleton,
          show decide (key y = k) = true from decide_eq_true hy, cond_true]
        rfl
    · rw [show decide (key y = k) = false from decide_eq_false hy, cond_false, List.append_nil, ← ih]
      split
      · rfl
      · rw [List.filter_append, List.filter_singleton,
          show decide (key y = k) = false from decide_eq_false hy, cond_false, List.append_nil]

/-- An element is kept if it is the first one of its key. -/
theorem mem_firsts_iff {xs : List α} {x : α} :
    x ∈ firsts key xs ↔ xs.find? (fun y => key y = key x) = some x := by
  have hmem : x ∈ firsts key xs ↔ x ∈ (xs.filter fun y => key y = key x).take 1 := by
    rw [← filter_firsts, List.mem_filter, decide_eq_true_iff, and_iff_left rfl]
  rw [hmem, ← List.head?_filter]
  cases xs.filter fun y => key y = key x with
  | nil => simp
  | cons y rest => simp [eq_comm]

/-- Where no key comes twice everything is kept. -/
theorem firsts_eq_self {xs : List α} (h : (xs.map key).Nodup) : firsts key xs = xs := by
  induction xs using List.reverseRecOn with
  | nil => rfl
  | append_singleton xs y ih =>
    rw [List.map_append, List.nodup_append] at h
    obtain ⟨hxs, -, hnew⟩ := h
    rw [firsts_concat, if_neg fun hold => hnew _ hold _ List.mem_cons_self rfl, ih hxs]

end CallGraph
