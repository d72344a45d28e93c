import CallGraph.Proofs.Lint.Once

/-!
# The limit of nesting

Payloads are linted down to a limit.  Under a higher limit nothing that was found is lost, except for
the warnings that the limit was reached.

* `Deepens` — the findings of a lower limit against those of a higher one, closed under what builds a
  report: `Deepens.append`, `Deepens.flatMap`, `Deepens.mergeSort`;
* `PayloadDeepens`, `payloadDeepens_payloadPart` — one payload under two limits;
* `deepens_lintAt` — a whole report, one level of payloads after the other;
* `deeper_limit_hides_nothing` — **raising the limit** hides no finding.
-/

namespace CallGraph

/-- The configuration under which payloads are linted down to another limit. -/
def Configuration.downTo (c : Configuration) (limit : Nat) : Configuration :=
  { c with payloadDepth := limit }

/-! ### Findings under two limits -/

/-- The findings `ds` lose nothing but warnings about deep payloads in favour of `ds'`, and are the
same where no payload is too deep. -/
structure Deepens (ds ds' : List Diagnostic) : Prop where
  /-- Every other finding is kept as often as it occurs. -/
  count_le : ∀ d, d.code ≠ some .deepPayload → ds.count d ≤ ds'.count d
  /-- Without such warnings nothing changes. -/
  eq : (∀ d ∈ ds, d.code ≠ some .deepPayload) → ds = ds'

namespace Deepens

theorem refl (ds : List Diagnostic) : Deepens ds ds where
  count_le _ _ := Nat.le_refl _
  eq _ := rfl

/-- A warning about a deep payload can give way to anything. -/
theorem deep (limit : Nat) (payload : Located String) (ds : List Diagnostic) :
    Deepens [deepPayload limit payload] ds where
  count_le d hd := by
    have hnone : d ∉ [deepPayload limit payload] := by
      intro hmem
      rw [List.mem_singleton.1 hmem] at hd
      exact hd rfl
    rw [List.count_eq_zero.2 hnone]
    exact Nat.zero_le _
  eq h := absurd rfl (h _ List.mem_cons_self)

variable {ds ds' others others' : List Diagnostic}

theorem append (h : Deepens ds ds') (hothers : Deepens others others') :
    Deepens (ds ++ others) (ds' ++ others') where
  count_le d hd := by
    rw [List.count_append, List.count_append]
    exact Nat.add_le_add (h.count_le d hd) (hothers.count_le d hd)
  eq hnone := by
    obtain ⟨hfirst, hrest⟩ := List.forall_mem_append.1 hnone
    rw [h.eq hfirst, hothers.eq hrest]

theorem flatMap {α : Type} {l : List α} {part part' : α → List Diagnostic}
    (h : ∀ a ∈ l, Deepens (part a) (part' a)) : Deepens (l.flatMap part) (l.flatMap part') := by
  induction l with
  | nil => exact refl []
  | cons a l ih =>
    obtain ⟨hfirst, hrest⟩ := List.forall_mem_cons.1 h
    rw [List.flatMap_cons, List.flatMap_cons]
    exact hfirst.append (ih hrest)

theorem mergeSort (h : Deepens ds ds') (before : Diagnostic → Diagnostic → Bool) :
    Deepens (ds.mergeSort before) (ds'.mergeSort before) where
  count_le d hd := by
    rw [(List.mergeSort_perm ds before).count_eq, (List.mergeSort_perm ds' before).count_eq]
    exact h.count_le d hd
  eq hnone := by
    rw [h.eq fun d hd => hnone d (List.mem_mergeSort.2 hd)]

end Deepens

/-! ### Reports under two limits -/

/-- The graph is drawn for a unit that is no payload. -/
theorem dot_lintAt (c : Configuration) (depth : Nat) (u : SourceUnit) :
    (lintAt c depth u).dot = if depth = 0 then u.graph.toDot else "" := by
  unfold lintAt lintLevels
  simp only [decide_eq_true_eq]

section

variable {c : Configuration} {limit limit' depth : Nat}

/-- What the payload of an edge adds to a report under a limit, and under a higher one. -/
inductive PayloadDeepens (c : Configuration) (limit limit' depth : Nat) :
    List Diagnostic → List Diagnostic → Prop where
  /-- There is no payload, or its text is refused: the limit does not matter. -/
  | same {part : List Diagnostic} : PayloadDeepens c limit limit' depth part part
  /-- The payload is too deep for the lower limit. -/
  | deep {payload : Located String} {part : List Diagnostic} :
    PayloadDeepens c limit limit' depth [deepPayload limit payload] part
  /-- The payload is linted as the same unit under both limits. -/
  | read {u : SourceUnit} : depth < limit →
    PayloadDeepens c limit limit' depth (lintAt (c.downTo limit) (depth + 1) u).diagnostics
      (lintAt (c.downTo limit') (depth + 1) u).diagnostics

theorem payloadDeepens_payloadPart (c : Configuration) (h : limit ≤ limit') (depth : Nat) (g : Graph)
    (e : Edge) :
    PayloadDeepens c limit limit' depth (payloadPart (c.downTo limit) depth g e)
      (payloadPart (c.downTo limit') depth g e) := by
  unfold payloadPart
  cases e.details.payload with
  | none => exact .same
  | some payload =>
    show PayloadDeepens c limit limit' depth (if limit ≤ depth then _ else _)
      (if limit' ≤ depth then _ else _)
    by_cases hdeep : limit ≤ depth
    · rw [if_pos hdeep]
      exact .deep
    · rw [if_neg hdeep, if_neg fun hdeep' => hdeep (h.trans hdeep')]
      -- The text is read alike, since its scope and the budget do not depend on the limit.
      rcases lintPayload_cases (c.downTo limit) depth g e payload with
        ⟨draft, rest, hread, hrun⟩ | ⟨draft, error, hread, hrun⟩ <;>
      rcases lintPayload_cases (c.downTo limit') depth g e payload with
        ⟨draft', rest', hread', hrun'⟩ | ⟨draft', error', hread', hrun'⟩ <;>
      have hsame := Prod.mk.inj (hread.symm.trans hread')
      · rw [hrun, hrun', hsame.1]
        exact .read (Nat.lt_of_not_le hdeep)
      · cases hsame.2
      · cases hsame.2
      · obtain rfl := hsame.1
        obtain rfl := Except.error.inj hsame.2
        rw [hrun, hrun']
        exact .same

/-- **The findings of a unit** and of its payloads, under a limit and under a higher one: the findings
of the unit itself do not depend on the limit, and those of a payload are compared one level deeper. -/
theorem deepens_lintAt (c : Configuration) (h : limit ≤ limit') (depth : Nat) (u : SourceUnit) :
    Deepens (lintAt (c.downTo limit) depth u).diagnostics
      (lintAt (c.downTo limit') depth u).diagnostics := by
  have hparts : Deepens (payloadParts (c.downTo limit) depth u.graph)
      (payloadParts (c.downTo limit') depth u.graph) := by
    show Deepens (if c.payloads then u.graph.edges.flatMap _ else [])
      (if c.payloads then u.graph.edges.flatMap _ else [])
    cases c.payloads with
    | false => exact .refl []
    | true =>
      refine .flatMap fun e _ => ?_
      have hpart := payloadDeepens_payloadPart c h depth u.graph e
      generalize payloadPart (c.downTo limit) depth u.graph e = part at hpart ⊢
      generalize payloadPart (c.downTo limit') depth u.graph e = part' at hpart ⊢
      cases hpart with
      | same => exact .refl part
      | deep => exact .deep _ _ part'
      | @read v hdepth => exact deepens_lintAt c h (depth + 1) v
  rw [diagnostics_lintAt, diagnostics_lintAt]
  exact ((Deepens.refl (unitFindings c (depth = 0) u)).append hparts).mergeSort _
termination_by limit - depth

end

/-- **Raising the limit hides no finding.**  A text that is refused is refused under both limits with
the same error.  Otherwise every finding but the warnings about deep payloads is reported under the
higher limit as often as under the lower one, or more often; and if there are no such warnings under
the lower limit, the whole report is the same. -/
theorem deeper_limit_hides_nothing (c : Configuration) (scope : Scope) (left : Draft) (text : String)
    (limit more : Nat) :
    let run := fun limit =>
      (Session.run { Session.ofMode .lint { c with payloadDepth := limit } with scope, draft := left }
        text).1
    (∃ error, run limit = .error (.unreadable error) ∧
      run (limit + more) = .error (.unreadable error)) ∨
    ∃ report report', run limit = .ok (.linted report) ∧ run (limit + more) = .ok (.linted report') ∧
      (∀ d, d.code ≠ some .deepPayload →
        report.diagnostics.count d ≤ report'.diagnostics.count d) ∧
      ((∀ d ∈ report.diagnostics, d.code ≠ some .deepPayload) → report = report') := by
  intro run
  rcases hread : Draft.ofText c.budget scope text with ⟨draft, error | ⟨⟩⟩
  · exact .inl ⟨error, Session.run_of_error hread, Session.run_of_error hread⟩
  · have hreport : ∀ limit, run limit = .ok (.linted (lint (c.downTo limit) draft.toUnit)) :=
      fun limit => Session.run_of_ok hread
    have hdeepens := deepens_lintAt c (Nat.le_add_right limit more) 0 draft.toUnit
    refine .inr ⟨_, _, hreport _, hreport _, hdeepens.count_le, fun hnone => ?_⟩
    have hdot : (lint (c.downTo limit) draft.toUnit).dot =
        (lint (c.downTo (limit + more)) draft.toUnit).dot :=
      (dot_lintAt _ 0 _).trans (dot_lintAt _ 0 _).symm
    exact congrArg₂ Report.mk (hdeepens.eq hnone) hdot

end CallGraph
