import Mathlib.Data.List.Basic

/-!
# Stable sorting

A sort is stable if it keeps the order of the elements that have the same key.  A sorted list is told by
the elements of each key, so that there is one stable way to sort a list.

* `filter_mergeSort` — sorting keeps the elements of each key in order;
* `eq_of_filter_eq` — two sorted lists with the same elements of each key, in order, are the same.
-/

namespace CallGraph

variable {α κ : Type} [DecidableEq κ] {key : α → κ}

/-- **Sorting is stable.**  It keeps the elements of each key in order, if it does not tell them apart. -/
theorem filter_mergeSort {le : α → α → Bool}
    (htrans : ∀ a b c, le a b = true → le b c = true → le a c = true)
    (htotal : ∀ a b, (le a b || le b a) = true) (hkey : ∀ a b, key a = key b → le a b = true)
    (xs : List α) (k : κ) :
    (xs.mergeSort le).filter (fun x => key x = k) = xs.filter fun x => key x = k := by
  have hsame : (xs.filter fun x => key x = k).Pairwise fun a b => le a b = true := by
    rw [List.pairwise_filter]
    refine List.pairwise_of_forall fun a b ha hb => hkey a b ?_
    exact (of_decide_eq_true ha).trans (of_decide_eq_true hb).symm
  have hkept := (List.sublist_mergeSort htrans htotal hsame List.filter_sublist).filter
    fun x => key x = k
  rw [List.filter_filter] at hkept
  simp only [Bool.and_self] at hkept
  refine (hkept.eq_of_length ?_).symm
  exact ((xs.mergeSort_perm le).filter _).length_eq.symm

/-- Lists with the same elements of each key have the same elements. -/
theorem mem_iff_of_filter_eq {xs ys : List α}
    (h : ∀ k, xs.filter (fun x => key x = k) = ys.filter fun y => key y = k) {x : α} :
    x ∈ xs ↔ x ∈ ys := by
  have hx := congrArg (x ∈ ·) (h (key x))
  simpa only [List.mem_filter, decide_true, and_true, eq_iff_iff] using hx

/-- **A sorted list** is told by its elements of each key. -/
theorem eq_of_filter_eq {r : α → α → Prop} (hantisymm : ∀ a b, r a b → r b a → key a = key b)
    {xs ys : List α} (hxs : xs.Pairwise r) (hys : ys.Pairwise r)
    (h : ∀ k, xs.filter (fun x => key x = k) = ys.filter fun y => key y = k) : xs = ys := by
  induction xs generalizing ys with
  | nil =>
    refine (List.eq_nil_iff_forall_not_mem.2 fun y hy => ?_).symm
    exact List.not_mem_nil ((mem_iff_of_filter_eq h).2 hy)
  | cons x xs ih =>
    cases ys with
    | nil => exact absurd ((mem_iff_of_filter_eq h).1 List.mem_cons_self) List.not_mem_nil
    | cons y ys =>
      obtain ⟨hx, hxs'⟩ := List.pairwise_cons.1 hxs
      obtain ⟨hy, hys'⟩ := List.pairwise_cons.1 hys
      have hkey : key x = key y := by
        rcases List.mem_cons.1 ((mem_iff_of_filter_eq h).1 List.mem_cons_self) with rfl | hleft
        · rfl
        rcases List.mem_cons.1 ((mem_iff_of_filter_eq h).2 List.mem_cons_self) with rfl | hright
        · rfl
        exact hantisymm x y (hx y hright) (hy x hleft)
      -- The heads are the first elements of their key, so they are the same.
      have hheads := h (key y)
      rw [List.filter_cons_of_pos (by simpa using hkey), List.filter_cons_of_pos (by simp)] at hheads
      obtain ⟨rfl, -⟩ := List.cons.inj hheads
      refine congrArg (x :: ·) (ih hxs' hys' fun k => ?_)
      have hrest := h k
      by_cases hk : key x = k
      · rw [List.filter_cons_of_pos (by simpa using hk),
          List.filter_cons_of_pos (by simpa using hk)] at hrest
        exact (List.cons.inj hrest).2
      · rwa [List.filter_cons_of_neg (by simpa using hk),
          List.filter_cons_of_neg (by simpa using hk)] at hrest

end CallGraph
