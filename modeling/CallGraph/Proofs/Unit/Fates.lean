import CallGraph.Proofs.Unit.Reference

/-!
# Fates

The fates of edge statements, seen as a whole.

* `mem_stored` — the edges stored are the first ones of their keys with both ends declared;
* `fates_filter` — the edges of some keys have the fates that they have among all edges;
* `fates_split` — a fate depends on the attempts before it only;
* `Enters.fate` — an edge enters a graph according to its fate.
-/

namespace CallGraph

/-- The edges that are stored. -/
def storedEdges (fates : List Fate) : List Edge := fates.filterMap Fate.stored?

section

variable {names : List String} {told : List Attempt} {e : Edge}

theorem fates_concat (names : List String) (told : List Attempt) (a : Attempt) :
    fates names [] (told ++ [a]) = fates names [] told ++ [a.fate names (edgesOf told)] := by
  rw [fates_append]
  rfl

theorem storedEdges_concat (names : List String) (told : List Attempt) (a : Attempt) :
    storedEdges (fates names [] (told ++ [a])) =
      storedEdges (fates names [] told) ++ (a.fate names (edgesOf told)).stored?.toList := by
  rw [fates_concat, storedEdges, List.filterMap_append]
  cases a.fate names (edgesOf told) <;> rfl

/-- The three fates of an edge. -/
theorem fate_edge (names : List String) (before : List Edge) (e : Edge) :
    (e.undeclared names ≠ [] ∧
      (Attempt.edge e).fate names before = .unresolved e (e.undeclared names)) ∨
    (e.undeclared names = [] ∧ ∃ first, firstOf? before e = some first ∧
      (Attempt.edge e).fate names before = .duplicate e first) ∨
    (e.undeclared names = [] ∧ firstOf? before e = none ∧
      (Attempt.edge e).fate names before = .stored e) := by
  by_cases hends : e.undeclared names = []
  · refine Or.inr ?_
    rw [Attempt.fate, if_neg (not_not.2 hends)]
    cases firstOf? before e with
    | some first => exact Or.inl ⟨hends, first, rfl, rfl⟩
    | none => exact Or.inr ⟨hends, rfl, rfl⟩
  · exact Or.inl ⟨hends, by rw [Attempt.fate, if_pos hends]⟩

/-- It does not matter in which order or how often names are listed. -/
theorem fates_congr_names {names' : List String} (h : ∀ name, name ∈ names ↔ name ∈ names')
    (before : List Edge) (told : List Attempt) :
    fates names before told = fates names' before told := by
  induction told generalizing before with
  | nil => rfl
  | cons a told ih =>
    have hfate : a.fate names before = a.fate names' before := by
      cases a with
      | sourceless s => rfl
      | edge e => rw [Attempt.fate, Attempt.fate, Edge.undeclared_congr_names h]
    rw [fates, fates, hfate, ih]

theorem attempt_fate (names : List String) (before : List Edge) (a : Attempt) :
    (a.fate names before).attempt = a := by
  cases a with
  | sourceless s => rfl
  | edge e =>
    rcases fate_edge names before e with ⟨-, hfate⟩ | ⟨-, first, -, hfate⟩ | ⟨-, -, hfate⟩ <;>
      rw [hfate] <;> rfl

/-- Each attempt has one fate. -/
theorem map_attempt_fates (names : List String) (before : List Edge) (told : List Attempt) :
    (fates names before told).map Fate.attempt = told := by
  induction told generalizing before with
  | nil => rfl
  | cons a told ih => rw [fates, List.map_cons, attempt_fate, ih]

/-- A fate is told where the statement is. -/
theorem span_fate (names : List String) (before : List Edge) (a : Attempt) :
    (a.fate names before).span = a.span := by
  have hspan : ∀ fate : Fate, fate.span = fate.attempt.span := by
    intro fate
    cases fate <;> rfl
  rw [hspan, attempt_fate]

/-! ### Some of the keys -/

section

variable {p : Attempt → Bool}

/-- The fate of an edge is told among the edges of its key. -/
theorem fate_filter (hp : ∀ e f : Edge, e.key = f.key → p (.edge e) = p (.edge f))
    (names : List String) (before : List Edge) {a : Attempt} (ha : p a = true) :
    a.fate names (before.filter fun e => p (.edge e)) = a.fate names before := by
  cases a with
  | sourceless s => rfl
  | edge e =>
    rw [Attempt.fate, Attempt.fate, firstOf?_filter fun f hkey => (hp f e hkey).trans ha]

/-- **Some of the keys can be looked at apart from the others**: the fates are the same, in the same
order. -/
theorem fates_filter (hp : ∀ e f : Edge, e.key = f.key → p (.edge e) = p (.edge f))
    (names : List String) (before : List Edge) (told : List Attempt) :
    fates names (before.filter fun e => p (.edge e)) (told.filter p) =
      (fates names before told).filter fun fate => p fate.attempt := by
  induction told generalizing before with
  | nil => rfl
  | cons a told ih =>
    have hrest := ih (before ++ a.edge?.toList)
    rw [List.filter_append] at hrest
    have hattempt := attempt_fate names before a
    by_cases ha : p a = true
    · have hedge : a.edge?.toList.filter (fun e => p (.edge e)) = a.edge?.toList := by
        cases a with
        | sourceless s => rfl
        | edge e => exact List.filter_eq_self.2 fun f hf => List.mem_singleton.1 hf ▸ ha
      rw [List.filter_cons_of_pos ha, fates, fates, List.filter_cons_of_pos (by rwa [hattempt]),
        fate_filter hp names before ha, ← hrest, hedge]
    · have hedge : a.edge?.toList.filter (fun e => p (.edge e)) = [] := by
        cases a with
        | sourceless s => rfl
        | edge e => exact List.filter_eq_nil_iff.2 fun f hf => List.mem_singleton.1 hf ▸ ha
      rw [List.filter_cons_of_neg ha, fates, List.filter_cons_of_neg (by rwa [hattempt]), ← hrest,
        hedge, List.append_nil]

end

/-- **The edges stored** are the first ones of their keys with both ends declared. -/
theorem mem_stored : e ∈ storedEdges (fates names [] told) ↔
    firstOf? (edgesOf told) e = some e ∧ e.undeclared names = [] := by
  induction told using List.reverseRecOn with
  | nil => simp only [fates, storedEdges, edgesOf, firstOf?, List.filterMap_nil, List.not_mem_nil,
      List.find?_nil, reduceCtorEq, false_and]
  | append_singleton told a ih =>
    rw [storedEdges_concat, List.mem_append, ih]
    cases a with
    | sourceless s =>
      have hedges : edgesOf (told ++ [.sourceless s]) = edgesOf told :=
        (edgesOf_append told _).trans (List.append_nil _)
      rw [hedges]
      exact or_iff_left List.not_mem_nil
    | edge x =>
      rw [edgesOf_concat]
      -- Only an edge with the key of `e` makes a difference.
      by_cases hkey : x.key = e.key
      · have hends := Edge.undeclared_congr hkey names
        rw [firstOf?_append, firstOf?_singleton, if_pos hkey, ← firstOf?_congr hkey, ← hends]
        rcases fate_edge names (edgesOf told) x with ⟨hx, hfate⟩ | ⟨hx, first, hfirst, hfate⟩ |
          ⟨hx, hnone, hfate⟩
        · rw [hfate]
          simp only [Fate.stored?, Option.toList_none, List.not_mem_nil, or_false, hx, and_false]
        · rw [hfate, hfirst]
          simp only [Fate.stored?, Option.toList_none, List.not_mem_nil, or_false, Option.some_or]
        · rw [hfate, hnone]
          simp only [Fate.stored?, Option.toList_some, List.mem_singleton, reduceCtorEq,
            false_or, Option.none_or, Option.some.injEq, hx, and_true]
          exact eq_comm
      · have hother : e ∉ ((Attempt.edge x).fate names (edgesOf told)).stored?.toList := by
          intro hmem
          rcases fate_edge names (edgesOf told) x with ⟨-, hfate⟩ | ⟨-, first, -, hfate⟩ |
            ⟨-, -, hfate⟩ <;> rw [hfate] at hmem
          · exact List.not_mem_nil hmem
          · exact List.not_mem_nil hmem
          · exact hkey (congrArg Edge.key (List.mem_singleton.1 hmem)).symm
        rw [firstOf?_concat_of_ne hkey]
        exact or_iff_left hother

end

/-- A fate depends on the attempts before it only. -/
theorem fates_split {names : List String} {told : List Attempt} {before : List Edge}
    {earlier later : List Fate} {fate : Fate}
    (h : fates names before told = earlier ++ fate :: later) :
    ∃ told₁ a told₂, told = told₁ ++ a :: told₂ ∧ earlier = fates names before told₁ ∧
      fate = a.fate names (before ++ edgesOf told₁) := by
  induction told generalizing before earlier with
  | nil => exact absurd h.symm (List.append_ne_nil_of_right_ne_nil _ (List.cons_ne_nil _ _))
  | cons a told ih =>
    rw [fates] at h
    cases earlier with
    | nil =>
      obtain ⟨rfl, -⟩ := List.cons.inj h
      exact ⟨[], a, told, rfl, rfl, by rw [edgesOf, List.filterMap_nil, List.append_nil]⟩
    | cons first earlier =>
      obtain ⟨rfl, hrest⟩ := List.cons.inj h
      obtain ⟨told₁, a', told₂, rfl, rfl, rfl⟩ := ih hrest
      refine ⟨a :: told₁, a', told₂, rfl, rfl, ?_⟩
      have hedges : edgesOf (a :: told₁) = a.edge?.toList ++ edgesOf told₁ :=
        edgesOf_append [a] told₁
      rw [hedges, List.append_assoc]

/-! ### Edges that meet their fate -/

/-- `Enters edges e edges' faults` says how an edge with declared ends changes the stored edges and
what is wrong with it. -/
inductive Enters (edges : List Edge) (e : Edge) : List Edge → List Fault → Prop where
  /-- Its key is taken. -/
  | duplicate {f : Edge} : f ∈ edges → f.key = e.key →
    Enters edges e edges [.duplicateEdge e.source e.target e.kind f.span]
  /-- Its key is new. -/
  | new {edges' : List Edge} : (∀ f ∈ edges, f.key ≠ e.key) → edges'.Perm (e :: edges) →
    Ascending edges' → Enters edges e edges' []

theorem Enters.ascending {edges edges' : List Edge} {e : Edge} {faults : List Fault}
    (h : Enters edges e edges' faults) (hascending : Ascending edges) : Ascending edges' := by
  cases h with
  | duplicate _ _ => exact hascending
  | new _ _ hascending' => exact hascending'

/-- **An edge enters a graph according to its fate**, if the graph holds what has been stored of
its key. -/
theorem Enters.fate {edges edges' : List Edge} {e : Edge} {faults : List Fault}
    (h : Enters edges e edges' faults) {names : List String} {told : List Attempt}
    (hends : e.undeclared names = [])
    (hedges : ∀ f : Edge, f.key = e.key → (f ∈ edges ↔ f ∈ storedEdges (fates names [] told))) :
    ((Attempt.edge e).fate names (edgesOf told)).faults = faults ∧
      edges'.Perm (edges ++ ((Attempt.edge e).fate names (edgesOf told)).stored?.toList) := by
  rcases fate_edge names (edgesOf told) e with ⟨hmissing, -⟩ | ⟨-, first, hfirst, hfate⟩ |
    ⟨-, hnone, hfate⟩
  · exact absurd hends hmissing
  · rw [hfate]
    cases h with
    | @duplicate f hf hkey =>
      -- The edge that takes the key is the first one.
      have hstored := (mem_stored.1 ((hedges f hkey).1 hf)).1
      rw [firstOf?_congr hkey, hfirst] at hstored
      obtain rfl := Option.some.inj hstored
      exact ⟨rfl, (List.append_nil edges).symm ▸ .refl edges⟩
    | new hnew _ _ =>
      have hkey := (firstOf?_eq_some hfirst).2
      have hstored : first ∈ storedEdges (fates names [] told) := by
        refine mem_stored.2 ⟨?_, ?_⟩
        · rw [firstOf?_congr hkey, hfirst]
        · rw [Edge.undeclared_congr hkey, hends]
      exact absurd hkey (hnew first ((hedges first hkey).2 hstored))
  · rw [hfate]
    cases h with
    | @duplicate f hf hkey =>
      have hstored := (mem_stored.1 ((hedges f hkey).1 hf)).1
      rw [firstOf?_congr hkey, hnone] at hstored
      simp only [reduceCtorEq] at hstored
    | new _ hperm _ => exact ⟨rfl, hperm.trans (List.perm_append_singleton e edges).symm⟩

end CallGraph
