import Mathlib.Tactic.SplitIfs
import CallGraph.Source.Span

/-!
# Covering spans

`Span.cover?` unites the spans that cover something.  The union is associative, so a cover can be
taken in pieces: a span that is itself a cover may stand for the spans it was made of.

* `Span.union_assoc` — uniting three spans does not depend on the grouping;
* `Span.cover?_append` — the cover of two lists is the union of their covers;
* `Span.cover?_cover` — a cover may stand for the spans that it covers.
-/

namespace CallGraph.Span

theorem location_union (s t : Span) :
    (s.union t).location = if t.start < s.start then t.location else s.location := rfl

theorem length_union (s t : Span) :
    (s.union t).length = max s.stop t.stop - min s.start t.start := by
  have h := start_union s t
  rw [← h]
  rfl

/-- **The union is associative.**  The earliest start wins, the leftmost one among equals. -/
theorem union_assoc (s t u : Span) : (s.union t).union u = s.union (t.union u) := by
  have hlocation : ((s.union t).union u).location = (s.union (t.union u)).location := by
    rw [location_union, location_union, location_union, location_union, start_union, start_union]
    split_ifs <;> first | rfl | omega
  have hlength : ((s.union t).union u).length = (s.union (t.union u)).length := by
    rw [length_union, length_union, stop_union, stop_union, start_union, start_union,
      Nat.max_assoc, Nat.min_assoc]
  calc (s.union t).union u
      = ⟨((s.union t).union u).location, ((s.union t).union u).length⟩ := rfl
    _ = ⟨(s.union (t.union u)).location, (s.union (t.union u)).length⟩ := by
        rw [hlocation, hlength]
    _ = s.union (t.union u) := rfl

theorem isEmpty_union {s t : Span} (hs : s.isEmpty = false) : (s.union t).isEmpty = false := by
  simp only [isEmpty, beq_eq_false_iff_ne] at hs ⊢
  rw [length_union]
  have hstart := t.start_le_stop
  simp only [stop] at hstart ⊢
  omega

theorem isEmpty_foldl_union {s : Span} (hs : s.isEmpty = false) (spans : List Span) :
    (spans.foldl union s).isEmpty = false := by
  induction spans generalizing s with
  | nil => exact hs
  | cons t spans ih => exact ih (isEmpty_union hs)

/-- A cover covers something. -/
theorem isEmpty_of_cover? {spans : List Span} {s : Span} (h : cover? spans = some s) :
    s.isEmpty = false := by
  unfold cover? at h
  split at h
  · simp only [reduceCtorEq] at h
  · rename_i first rest hfilter
    rw [← Option.some.inj h]
    apply isEmpty_foldl_union
    have hmem : first ∈ spans.filter fun s => !s.isEmpty := by
      rw [hfilter]
      exact List.mem_cons_self
    simpa using (List.mem_filter.1 hmem).2

/-- Where something is covered, there is a cover. -/
theorem exists_cover? {spans : List Span} {s : Span} (hmem : s ∈ spans) (h : s.isEmpty = false) :
    ∃ t, cover? spans = some t := by
  unfold cover?
  split
  · rename_i hfilter
    have hs : s ∈ spans.filter fun s => !s.isEmpty := List.mem_filter.2 ⟨hmem, by simp [h]⟩
    rw [hfilter] at hs
    exact absurd hs List.not_mem_nil
  · exact ⟨_, rfl⟩

@[simp] theorem cover?_nil : cover? [] = none := rfl

theorem cover?_singleton {s : Span} (h : s.isEmpty = false) : cover? [s] = some s := by
  simp [cover?, h]

theorem cover?_singleton_of_isEmpty {s : Span} (h : s.isEmpty = true) : cover? [s] = none := by
  simp [cover?, h]

theorem foldl_union_union (s t : Span) (spans : List Span) :
    spans.foldl union (s.union t) = s.union (spans.foldl union t) := by
  induction spans generalizing t with
  | nil => rfl
  | cons u spans ih => rw [List.foldl_cons, List.foldl_cons, union_assoc, ih]

theorem cover?_append (a b : List Span) :
    cover? (a ++ b) = (cover? a).merge union (cover? b) := by
  unfold cover?
  rw [List.filter_append]
  cases ha : a.filter fun s => !s.isEmpty with
  | nil => simp
  | cons s rest =>
    cases hb : b.filter fun s => !s.isEmpty with
    | nil => simp
    | cons t rest' =>
      simp only [List.cons_append, List.foldl_append, List.foldl_cons, Option.merge_some_some]
      rw [foldl_union_union]

theorem cover?_cons (s : Span) (spans : List Span) :
    cover? (s :: spans) = (cover? [s]).merge union (cover? spans) :=
  cover?_append [s] spans

/-- A cover stands for what it covers, also where there is nothing to cover. -/
theorem cover?_cover (spans : List Span) (here : Location) :
    cover? [(cover? spans).getD (.empty here)] = cover? spans := by
  cases h : cover? spans with
  | none => exact cover?_singleton_of_isEmpty rfl
  | some s => exact cover?_singleton (isEmpty_of_cover? h)

end CallGraph.Span
