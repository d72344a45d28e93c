import CallGraph.Proofs.Lint.Distinct

/-!
# What is listed once

A report lists every finding once, except for the error of a payload that was reported already when
the payload was refused for it: that one is listed twice.

* `Repeats` — what is listed twice, and `RepeatsIn` — the payload that is to blame;
* `count_flatMap_of_mem`, `count_lintAt_of_mem` — a payload alone tells how often its findings occur;
* `count_lintAt`, `count_payloadPart` — one level of payloads after the other;
* `report_repeats_iff` — **nothing else is listed twice**.
-/

namespace CallGraph

/-! ### Repetitions -/

mutual

/-- The finding is listed twice in the report of a unit at some depth, for the sake of a payload. -/
inductive Repeats (c : Configuration) : Nat → Graph → Diagnostic → Prop where
  | payload {depth : Nat} {g : Graph} {e : Edge} {d : Diagnostic} : c.payloads = true →
    e ∈ g.edges → RepeatsIn c depth g e d → Repeats c depth g d

/-- The payload of the edge adds the finding twice to the report of a unit at some depth. -/
inductive RepeatsIn (c : Configuration) : Nat → Graph → Edge → Diagnostic → Prop where
  /-- The payload is refused for an error that was reported while it was read. -/
  | refused {depth : Nat} {g : Graph} {e : Edge} {payload : Located String} {draft : Draft}
    {error : SyntaxError} : e.details.payload = some payload → depth < c.payloadDepth →
    Draft.ofText c.budget (payloadScope g e.target payload) payload.value = (draft, .error error) →
    error.toDiagnostic ∈ draft.diagnostics → RepeatsIn c depth g e error.toDiagnostic
  /-- The payload is read, and its own report lists the finding twice. -/
  | read {depth : Nat} {g : Graph} {e : Edge} {payload : Located String} {draft : Draft}
    {d : Diagnostic} : e.details.payload = some payload → depth < c.payloadDepth →
    Draft.ofText c.budget (payloadScope g e.target payload) payload.value = (draft, .ok ()) →
    Repeats c (depth + 1) draft.graph d → RepeatsIn c depth g e d

end

/-- Where lists are disjoint, what is in one of them occurs as often in all of them together. -/
theorem count_flatMap_of_mem {α β : Type} [DecidableEq β] {f : α → List β} {l : List α} {a : α}
    {x : β} (h : l.Pairwise fun a b => ∀ x ∈ f a, x ∉ f b) (ha : a ∈ l) (hx : x ∈ f a) :
    (l.flatMap f).count x = (f a).count x := by
  induction h with
  | nil => exact absurd ha List.not_mem_nil
  | @cons b l hfirst _ ih =>
    rw [List.flatMap_cons, List.count_append]
    rcases List.mem_cons.1 ha with rfl | hmem
    · have hnone : x ∉ l.flatMap f := by
        intro hrest
        obtain ⟨b, hb, hxb⟩ := List.mem_flatMap.1 hrest
        exact hfirst b hb x hx hxb
      rw [List.count_eq_zero.2 hnone, Nat.add_zero]
    · have hnone : x ∉ f b := fun hxb => hfirst a hmem x hxb hx
      rw [List.count_eq_zero.2 hnone, Nat.zero_add, ih hmem]

theorem count_diagnostics_lintAt (c : Configuration) (depth : Nat) (u : SourceUnit) (d : Diagnostic) :
    (lintAt c depth u).diagnostics.count d =
      (unitFindings c (depth = 0) u).count d + (payloadParts c depth u.graph).count d := by
  rw [diagnostics_lintAt, (List.mergeSort_perm _ _).count_eq, List.count_append]

/-- What the payload of an edge adds is added as often to the whole report. -/
theorem count_lintAt_of_mem {c : Configuration} {depth : Nat} {scope : Scope} {text : String}
    {draft : Draft} {d : Diagnostic} {e : Edge}
    (h : Draft.ofText c.budget scope text = (draft, .ok ())) (htop : depth = 0 → scope.seeds = [])
    (hpayloads : c.payloads = true) (he : e ∈ draft.graph.edges)
    (hd : d ∈ payloadPart c depth draft.graph e) :
    (lintAt c depth draft.toUnit).diagnostics.count d =
      (payloadPart c depth draft.graph e).count d := by
  have hunit : d ∉ unitFindings c (depth = 0) draft.toUnit := fun hunit =>
    not_mem_payloadPart_of_mem_unitFindings h htop hunit he hd
  have hwell := (laidOver_ofText h).1
  have hdisjoint : draft.graph.edges.Pairwise fun e f => ∀ d ∈ payloadPart c depth draft.graph e,
      d ∉ payloadPart c depth draft.graph f := by
    refine hwell.edges_ascending.imp_of_mem fun {e f} he hf hlt d hd => ?_
    refine disjoint_payloadParts h he hf ?_ hd
    rintro rfl
    rw [Edge.order_eq_eq.2 rfl] at hlt
    cases hlt
  rw [count_diagnostics_lintAt, List.count_eq_zero.2 hunit, Nat.zero_add, payloadParts, hpayloads,
    if_pos rfl]
  exact count_flatMap_of_mem hdisjoint he hd

section

variable {c : Configuration} {depth : Nat} {g : Graph} {e : Edge} {d : Diagnostic}
  {payload : Located String} {draft : Draft} {error : SyntaxError}

namespace RepeatsIn

theorem mem (h : RepeatsIn c depth g e d)
    (hcount : (payloadPart c depth g e).count d = 2 ↔ RepeatsIn c depth g e d) :
    d ∈ payloadPart c depth g e := by
  refine List.count_pos_iff.1 ?_
  rw [hcount.2 h]
  exact Nat.two_pos

/-- Only a payload that is not too deep repeats anything. -/
theorem exists_payload (h : RepeatsIn c depth g e d) :
    depth < c.payloadDepth ∧ ∃ payload, e.details.payload = some payload := by
  cases h with
  | refused hpayload hdepth => exact ⟨hdepth, _, hpayload⟩
  | read hpayload hdepth => exact ⟨hdepth, _, hpayload⟩

theorem of_read (h : RepeatsIn c depth g e d) (hpayload : e.details.payload = some payload)
    (hread : Draft.ofText c.budget (payloadScope g e.target payload) payload.value = (draft, .ok ())) :
    Repeats c (depth + 1) draft.graph d := by
  cases h with
  | refused hpayload' _ hread' =>
    obtain rfl := Option.some.inj (hpayload.symm.trans hpayload')
    rw [hread] at hread'
    cases (Prod.mk.inj hread').2
  | read hpayload' _ hread' hrepeats =>
    obtain rfl := Option.some.inj (hpayload.symm.trans hpayload')
    rw [hread] at hread'
    exact (Prod.mk.inj hread').1 ▸ hrepeats

theorem of_refused (h : RepeatsIn c depth g e d) (hpayload : e.details.payload = some payload)
    (hread : Draft.ofText c.budget (payloadScope g e.target payload) payload.value =
      (draft, .error error)) :
    d = error.toDiagnostic ∧ error.toDiagnostic ∈ draft.diagnostics := by
  cases h with
  | refused hpayload' _ hread' hmem =>
    obtain rfl := Option.some.inj (hpayload.symm.trans hpayload')
    rw [hread] at hread'
    obtain ⟨rfl, herror⟩ := Prod.mk.inj hread'
    obtain rfl := Except.error.inj herror
    exact ⟨rfl, hmem⟩
  | read hpayload' _ hread' =>
    obtain rfl := Option.some.inj (hpayload.symm.trans hpayload')
    rw [hread] at hread'
    cases (Prod.mk.inj hread').2

end RepeatsIn

end

mutual

/-- **A report** lists nothing more than twice, and twice only what repeats.  What the payloads add is
apart from everything else, so that one payload alone can repeat a finding. -/
theorem count_lintAt (c : Configuration) (depth : Nat) {scope : Scope} {text : String}
    {draft : Draft} (h : Draft.ofText c.budget scope text = (draft, .ok ()))
    (htop : depth = 0 → scope.seeds = []) (d : Diagnostic) :
    (lintAt c depth draft.toUnit).diagnostics.count d ≤ 2 ∧
      ((lintAt c depth draft.toUnit).diagnostics.count d = 2 ↔ Repeats c depth draft.graph d) := by
  by_cases hpart : c.payloads = true ∧ ∃ e ∈ draft.graph.edges, d ∈ payloadPart c depth draft.graph e
  · obtain ⟨hpayloads, e, he, hd⟩ := hpart
    obtain ⟨hle, hiff⟩ := count_payloadPart c depth draft.graph e d
    rw [count_lintAt_of_mem h htop hpayloads he hd]
    refine ⟨hle, hiff.trans ⟨fun hrepeats => .payload hpayloads he hrepeats, fun hrepeats => ?_⟩⟩
    cases hrepeats with
    | @payload _ _ f _ _ hf hrepeats =>
      by_cases heq : e = f
      · exact heq ▸ hrepeats
      · exact absurd (hrepeats.mem (count_payloadPart c depth draft.graph f d).2)
          (disjoint_payloadParts h he hf heq hd)
  · -- Nothing but the unit itself can list the finding.
    have hnone : d ∉ payloadParts c depth draft.graph := by
      intro hd
      unfold payloadParts at hd
      split at hd
      · rename_i hpayloads
        exact hpart ⟨hpayloads, List.mem_flatMap.1 hd⟩
      · exact List.not_mem_nil hd
    have hunit := List.nodup_iff_count_le_one.1 (nodup_unitFindings_ofText h htop) d
    have hcount := count_diagnostics_lintAt c depth draft.toUnit d
    rw [show (payloadParts c depth draft.toUnit.graph).count d = 0 from List.count_eq_zero.2 hnone]
      at hcount
    refine ⟨by omega, fun htwo => by omega, fun hrepeats => ?_⟩
    cases hrepeats with
    | @payload _ _ e _ hpayloads he hrepeats =>
      exact absurd ⟨hpayloads, e, he, hrepeats.mem (count_payloadPart c depth draft.graph e d).2⟩ hpart
termination_by (c.payloadDepth - depth, 1)

/-- **A payload** adds nothing more than twice, and twice only what repeats in it. -/
theorem count_payloadPart (c : Configuration) (depth : Nat) (g : Graph) (e : Edge) (d : Diagnostic) :
    (payloadPart c depth g e).count d ≤ 2 ∧
      ((payloadPart c depth g e).count d = 2 ↔ RepeatsIn c depth g e d) := by
  have hreads := payloadReads_payloadPart c depth g e
  generalize payloadPart c depth g e = part at hreads ⊢
  cases hreads with
  | absent hnone =>
    refine ⟨Nat.zero_le _, (fun h => nomatch h), fun hrepeats => ?_⟩
    obtain ⟨-, payload, hpayload⟩ := hrepeats.exists_payload
    rw [hnone] at hpayload
    cases hpayload
  | @deep payload hpayload hdeep =>
    have hone := List.nodup_iff_count_le_one.1
      (List.nodup_singleton (deepPayload c.payloadDepth payload)) d
    refine ⟨by omega, fun h => by omega, fun hrepeats => ?_⟩
    have hdepth := hrepeats.exists_payload.1
    omega
  | read hpayload hdepth hread =>
    obtain ⟨hle, hiff⟩ := count_lintAt c (depth + 1) hread
      (fun h => absurd h (Nat.succ_ne_zero depth)) d
    exact ⟨hle, hiff.trans ⟨.read hpayload hdepth hread, fun h => h.of_read hpayload hread⟩⟩
  | @refused payload draft error hpayload hdepth hread =>
    have hnodup := nodup_ofText c.budget (payloadScope g e.target payload) payload.value
    rw [hread] at hnodup
    have hone : draft.diagnostics.count d ≤ 1 := List.nodup_iff_count_le_one.1 hnodup d
    rw [List.count_append]
    by_cases heq : error.toDiagnostic = d
    · subst heq
      rw [List.count_singleton_self]
      refine ⟨by omega, fun htwo => ?_, fun hrepeats => ?_⟩
      · exact .refused hpayload hdepth hread (List.count_pos_iff.1 (by omega))
      · have hpos := List.count_pos_iff.2 (hrepeats.of_refused hpayload hread).2
        omega
    · have hother : [error.toDiagnostic].count d = 0 :=
        List.count_eq_zero.2 fun hd => heq (List.mem_singleton.1 hd).symm
      refine ⟨by omega, fun htwo => by omega, fun hrepeats => ?_⟩
      exact absurd (hrepeats.of_refused hpayload hread).1.symm heq
termination_by (c.payloadDepth - depth, 0)

end

/-- **A report lists a finding once**, unless it is the error of a payload, at whatever depth, that was
reported already while the payload was read: such an error is listed twice. -/
theorem report_repeats_iff (c : Configuration) (left : Draft) (source : String) :
    let result := (Session.run { Session.ofMode .lint c with draft := left } source).1
    let graph := (Draft.ofText c.budget {} source).1.graph
    (∃ error, result = .error (.unreadable error)) ∨
      ∃ report, result = .ok (.linted report) ∧
        (∀ d, report.diagnostics.count d ≤ 2 ∧
          (report.diagnostics.count d = 2 ↔ Repeats c 0 graph d)) ∧
        (report.diagnostics.Nodup ↔ ∀ d, ¬Repeats c 0 graph d) := by
  intro result graph
  rcases hread : Draft.ofText c.budget {} source with ⟨draft, error | ⟨⟩⟩
  · exact .inl ⟨error, Session.run_of_error hread⟩
  · have hresult : result = .ok (.linted (lint c draft.toUnit)) := Session.run_of_ok hread
    have hgraph : graph = draft.graph := congrArg (fun read => read.1.graph) hread
    have hcount : ∀ d, (lint c draft.toUnit).diagnostics.count d ≤ 2 ∧
        ((lint c draft.toUnit).diagnostics.count d = 2 ↔ Repeats c 0 draft.graph d) :=
      count_lintAt c 0 hread fun _ => rfl
    rw [hgraph]
    refine .inr ⟨lint c draft.toUnit, hresult, hcount, fun hnodup d hrepeats => ?_, fun hnone => ?_⟩
    · have hone := List.nodup_iff_count_le_one.1 hnodup d
      have htwo := (hcount d).2.2 hrepeats
      omega
    · refine List.nodup_iff_count_le_one.2 fun d => ?_
      have hle := (hcount d).1
      have htwo := mt (hcount d).2.1 (hnone d)
      omega

/-- A payload with one mistake in it, behind which no statement ends. -/
theorem report_repeats_error :
    let source := ".a [] .b []\na -> b \x7b x y \x7d;"
    ∃ report, ((Session.ofMode .lint {}).run source).1 = .ok (.linted report) ∧
      ¬report.diagnostics.Nodup := by
  intro source
  have hrun : (Draft.ofText 16 {} source).2 = .ok () ∧
      ¬(payloadParts {} 0 (Draft.ofText 16 {} source).1.graph).Nodup := by decide +kernel
  obtain ⟨hok, hparts⟩ := hrun
  have hread : Draft.ofText 16 {} source = ((Draft.ofText 16 {} source).1, .ok ()) :=
    Prod.ext rfl hok
  refine ⟨lint {} (Draft.ofText 16 {} source).1.toUnit, Session.run_of_ok hread,
    fun hnodup => hparts ?_⟩
  unfold lint at hnodup
  rw [diagnostics_lintAt, (List.mergeSort_perm _ _).nodup_iff] at hnodup
  exact (List.nodup_append.1 hnodup).2.1

end CallGraph
