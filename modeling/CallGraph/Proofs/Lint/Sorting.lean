import CallGraph.Proofs.Stable
import CallGraph.Unit.Lint

/-!
# Sorting by position

A report lists its findings by position.

* `SortedByPlace` — what that means: nothing is lost or added, what starts earlier comes first, what
  has no position comes last, and what starts at the same place keeps its order;
* `sortedByPlace_mergeSort` — sorting does this;
* `SortedByPlace.unique` — and there is no other way to do it.
-/

namespace CallGraph

/-- Where the finding is placed, if it has a position. -/
def Diagnostic.place? (d : Diagnostic) : Option Nat := d.span?.map Span.start

/-- The list holds the given findings by position, in a stable order. -/
structure SortedByPlace (given sorted : List Diagnostic) : Prop where
  /-- Nothing is lost and nothing added. -/
  perm : sorted.Perm given
  /-- What comes before a finding with a position has one too, and starts no later. -/
  ascending : sorted.Pairwise fun a b => ∀ p, b.place? = some p → ∃ q ≤ p, a.place? = some q
  /-- What starts at the same place, or nowhere, keeps its order. -/
  stable : ∀ place, sorted.filter (fun d => d.place? = place) =
    given.filter fun d => d.place? = place

namespace Diagnostic

variable {a b : Diagnostic}

theorem before_iff :
    a.before b = true ↔ ∀ p, b.place? = some p → ∃ q ≤ p, a.place? = some q := by
  unfold before place?
  cases a.span? <;> cases b.span? <;> simp

theorem before_trans (a b c : Diagnostic) (hab : a.before b = true) (hbc : b.before c = true) :
    a.before c = true := by
  rw [before_iff] at *
  intro p hp
  obtain ⟨q, hq, hplace⟩ := hbc p hp
  obtain ⟨r, hr, hplace'⟩ := hab q hplace
  exact ⟨r, Nat.le_trans hr hq, hplace'⟩

theorem before_total (a b : Diagnostic) : (a.before b || b.before a) = true := by
  unfold before
  cases a.span? <;> cases b.span? <;> simp
  omega

theorem before_of_place?_eq (h : a.place? = b.place?) : a.before b = true := by
  rw [before_iff]
  intro p hp
  exact ⟨p, Nat.le_refl p, h.trans hp⟩

end Diagnostic

/-- **Sorting by position** is stable. -/
theorem sortedByPlace_mergeSort (ds : List Diagnostic) :
    SortedByPlace ds (ds.mergeSort Diagnostic.before) where
  perm := ds.mergeSort_perm _
  ascending := by
    have h := List.pairwise_mergeSort Diagnostic.before_trans Diagnostic.before_total ds
    exact h.imp fun hbefore => Diagnostic.before_iff.1 hbefore
  stable := filter_mergeSort Diagnostic.before_trans Diagnostic.before_total
    (fun _ _ => Diagnostic.before_of_place?_eq) ds

namespace SortedByPlace

/-- **There is one stable order.** -/
theorem unique {given sorted other : List Diagnostic} (h : SortedByPlace given sorted)
    (h' : SortedByPlace given other) : other = sorted := by
  have hplaces : ∀ place, (other.filter fun d => d.place? = place) =
      sorted.filter fun d => d.place? = place := fun place =>
    (h'.stable place).trans (h.stable place).symm
  refine eq_of_filter_eq (fun a b hab hba => ?_) h'.ascending h.ascending hplaces
  -- Of two findings that may stand before each other both have a position, or none has.
  cases hplace : b.place? with
  | some p =>
    obtain ⟨q, hq, ha⟩ := hab p hplace
    obtain ⟨r, hr, hb⟩ := hba q ha
    obtain rfl : r = p := Option.some.inj (hb.symm.trans hplace)
    rw [ha, show q = r by omega]
  | none =>
    cases ha : a.place? with
    | none => rfl
    | some q =>
      obtain ⟨r, -, hb⟩ := hba q ha
      rw [hplace] at hb
      cases hb

end SortedByPlace

end CallGraph
