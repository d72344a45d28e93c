import CallGraph.Proofs.Lint.Modes
import CallGraph.Proofs.Unit.Spans
import CallGraph.Service.Reportable

/-!
# Positions are true

Every position that is reported is one of the source, however deep the payload that it lies in.

* `Diagnostic.PointsTo` — where a finding points: to spans of one kind, and perhaps to seeds besides;
* `pointsTo_unitFindings` — findings about a unit point to tokens of its text;
* `pointsTo_lintAt`, `pointsTo_payloadPart` — those of its payloads point into its text too, since a
  payload is a piece of it;
* `positions_true` — **every reported position** is true in the source.
-/

namespace CallGraph

/-- The finding points to a span of this kind, and all its labels are at such spans or at seeds. -/
structure Diagnostic.PointsTo (P : Span → Prop) (seeds : List Node) (d : Diagnostic) : Prop where
  /-- The position of the finding. -/
  placed : ∃ s, d.span? = some s ∧ P s
  /-- The positions of all labels. -/
  labels : ∀ label ∈ d.labels, P label.span ∨ ∃ n ∈ seeds, label.span = n.span

section

variable {P Q : Span → Prop} {seeds others : List Node} {d : Diagnostic}

theorem Diagnostic.PointsTo.imp (h : d.PointsTo P seeds) (hspan : ∀ s, P s → Q s)
    (hseeds : ∀ n ∈ seeds, n ∈ others ∨ Q n.span) : d.PointsTo Q others where
  placed := by
    obtain ⟨s, hs, hplaced⟩ := h.placed
    exact ⟨s, hs, hspan s hplaced⟩
  labels := by
    intro label hlabel
    rcases h.labels label hlabel with hplaced | ⟨n, hn, heq⟩
    · exact .inl (hspan _ hplaced)
    · rcases hseeds n hn with hother | hplaced
      · exact .inr ⟨n, hother, heq⟩
      · exact .inl (heq ▸ hplaced)

/-- A finding with one label points to the span of the label. -/
theorem pointsTo_primary {s : Span} {message : String} (h : d.labels = [.primary s message])
    (hs : P s) : d.PointsTo P seeds where
  placed := by
    refine ⟨s, ?_, hs⟩
    unfold Diagnostic.span?
    rw [h]
    rfl
  labels := by
    intro label hlabel
    rw [h] at hlabel
    rw [List.mem_singleton.1 hlabel]
    exact .inl hs

end

/-! ### Units -/

theorem mem_topFindings {c : Configuration} {g : Graph} {d : Diagnostic} (hd : d ∈ topFindings c g) :
    ∃ n ∈ g.nodes, ∃ message, d.labels = [.primary n.span message] := by
  rcases List.mem_append.1 hd with haddress | hunused
  · obtain ⟨n, hn, hd⟩ := List.mem_flatMap.1 haddress
    rcases mem_checkAddress hd with ⟨v, rfl⟩ | ⟨v, rfl⟩ | rfl <;> exact ⟨n, hn, _, rfl⟩
  · split at hunused
    · obtain ⟨n, hn, rfl⟩ := List.mem_map.1 hunused
      exact ⟨n, (List.mem_filter.1 hn).1, _, rfl⟩
    · exact absurd hunused List.not_mem_nil

/-- **Findings about a unit** point to tokens.  The unit has no seeds if it is no payload. -/
theorem pointsTo_unitFindings {c : Configuration} {top : Bool} {u : SourceUnit}
    {tokens : List Token} {seeds : List Node} (hwell : u.graph.WellFormed)
    (hlaid : u.graph.LaidOver tokens seeds)
    (hfound : ∀ d ∈ u.diagnostics, d.PointsTo (Span.Anchored tokens) seeds)
    (htop : top = true → seeds = []) :
    ∀ d ∈ unitFindings c top u, d.PointsTo (Span.Anchored tokens) seeds := by
  intro d hd
  rw [unitFindings_eq c top hwell] at hd
  simp only [List.mem_append] at hd
  rcases hd with ((hd | hd) | hd) | hd
  · exact hfound d hd
  · obtain ⟨path, -, e, he, -, rfl⟩ := (mem_cycleFindings hwell).1 hd
    exact pointsTo_primary rfl (hlaid.edges e he)
  · obtain ⟨p, hp, rfl | ⟨expected, help, rfl⟩⟩ := mem_checkSettings hd <;>
      exact pointsTo_primary rfl (hlaid.settings p hp)
  · cases top with
    | false => exact absurd hd List.not_mem_nil
    | true =>
      obtain ⟨n, hn, message, hlabels⟩ := mem_topFindings hd
      refine pointsTo_primary hlabels ((hlaid.nodes n hn).resolve_left fun hseed => ?_)
      rw [htop rfl] at hseed
      exact List.not_mem_nil hseed

section

variable {budget : Nat} {scope : Scope} {text : String} {draft : Draft} {error : SyntaxError}
  {d : Diagnostic}

/-- Findings made while a text is read point to its tokens. -/
theorem pointsTo_ofText (hd : d ∈ (Draft.ofText budget scope text).1.diagnostics) :
    d.PointsTo (Span.Anchored (Scanner.startingAt scope.start text).tokens.1) scope.seeds := by
  have hvisible := (Scanner.startingAt scope.start text).layout.visible
  have hlaid := laid_parse budget scope.start text
  obtain ⟨event, hevent, hfound⟩ := (finds_ofText budget scope text).found hd
  exact ⟨hlaid.span?_found hvisible hevent hfound,
    fun label hlabel => hlaid.labels_found hvisible hevent hfound hlabel⟩

/-- A unit that is read is laid over the tokens of its text. -/
theorem laidOver_ofText (h : Draft.ofText budget scope text = (draft, .ok ())) :
    draft.graph.WellFormed ∧
      draft.graph.LaidOver (Scanner.startingAt scope.start text).tokens.1 scope.seeds := by
  rw [Draft.eq_ofEvents budget scope text h]
  exact ⟨wellFormed_ofEvents _ _, (laid_parse budget scope.start text).laidOver scope⟩

/-- **The position of an error** for which a text is refused is true in it. -/
theorem within_error (h : Draft.ofText budget scope text = (draft, .error error)) :
    error.span.Within scope.start text.toList := by
  have hlayout := (Scanner.startingAt scope.start text).layout
  have herror := Draft.result_of_error budget scope text h
  rcases (parse_handsOver budget scope.start text).error error herror with htoken | hlast | hnone
  · exact hlayout.within _ htoken
  · rw [SyntaxError.span, hlast, hlayout.last_eq]
    exact Span.within_empty ⟨_, List.prefix_refl _, rfl⟩
  · cases hnone

end

/-! ### Payloads -/

/-- What the payload of an edge adds to the report of a unit, by what becomes of its text. -/
inductive PayloadReads (c : Configuration) (depth : Nat) (g : Graph) (e : Edge) :
    List Diagnostic → Prop where
  | absent : e.details.payload = none → PayloadReads c depth g e []
  | deep {payload : Located String} : e.details.payload = some payload → c.payloadDepth ≤ depth →
    PayloadReads c depth g e [deepPayload c.payloadDepth payload]
  | read {payload : Located String} {draft : Draft} : e.details.payload = some payload →
    depth < c.payloadDepth →
    Draft.ofText c.budget (payloadScope g e.target payload) payload.value = (draft, .ok ()) →
    PayloadReads c depth g e (lintAt c (depth + 1) draft.toUnit).diagnostics
  | refused {payload : Located String} {draft : Draft} {error : SyntaxError} :
    e.details.payload = some payload → depth < c.payloadDepth →
    Draft.ofText c.budget (payloadScope g e.target payload) payload.value = (draft, .error error) →
    PayloadReads c depth g e (draft.diagnostics ++ [error.toDiagnostic])

theorem payloadReads_payloadPart (c : Configuration) (depth : Nat) (g : Graph) (e : Edge) :
    PayloadReads c depth g e (payloadPart c depth g e) := by
  unfold payloadPart
  cases hpayload : e.details.payload with
  | none => exact .absent hpayload
  | some payload =>
    by_cases hdeep : c.payloadDepth ≤ depth
    · simp only [hdeep, if_true]
      exact .deep hpayload hdeep
    · simp only [hdeep, if_false]
      rcases lintPayload_cases c depth g e payload with ⟨draft, rest, hread, hrun⟩ |
        ⟨draft, error, hread, hrun⟩ <;> rw [hrun]
      · exact .read hpayload (Nat.lt_of_not_le hdeep) hread
      · exact .refused hpayload (Nat.lt_of_not_le hdeep) hread

theorem exists_payload {c : Configuration} {depth : Nat} {g : Graph} {e : Edge} {d : Diagnostic}
    (h : d ∈ payloadPart c depth g e) : ∃ payload, e.details.payload = some payload := by
  unfold payloadPart at h
  cases hpayload : e.details.payload with
  | none =>
    rw [hpayload] at h
    exact absurd h List.not_mem_nil
  | some payload => exact ⟨payload, rfl⟩

theorem mem_diagnostics_lintAt {c : Configuration} {depth : Nat} {u : SourceUnit} {d : Diagnostic} :
    d ∈ (lintAt c depth u).diagnostics ↔ d ∈ unitFindings c (depth = 0) u ∨
      c.payloads = true ∧ ∃ e ∈ u.graph.edges, d ∈ payloadPart c depth u.graph e := by
  rw [diagnostics_lintAt, List.mem_mergeSort, List.mem_append, payloadParts]
  cases c.payloads <;> simp

mutual

/-- **A whole report** points into the text of its unit: a payload is a piece of the text, and its
seeds are nodes of the unit around it. -/
theorem pointsTo_lintAt (c : Configuration) (depth : Nat) {scope : Scope} {text : String}
    {draft : Draft} (h : Draft.ofText c.budget scope text = (draft, .ok ()))
    (htop : depth = 0 → scope.seeds = []) :
    ∀ d ∈ (lintAt c depth draft.toUnit).diagnostics,
      d.PointsTo (Span.Within scope.start text.toList) scope.seeds := by
  intro d hd
  have hlayout := (Scanner.startingAt scope.start text).layout
  obtain ⟨hwell, hlaid⟩ := laidOver_ofText h
  have hwithin : ∀ s, Span.Anchored (Scanner.startingAt scope.start text).tokens.1 s →
      Span.Within scope.start text.toList s := fun s hs => hlayout.within_of_anchored hs
  rcases mem_diagnostics_lintAt.1 hd with hunit | ⟨-, e, he, hpart⟩
  · have hfound : ∀ d ∈ draft.diagnostics, d.PointsTo (Span.Anchored _) scope.seeds :=
      fun d hd => pointsTo_ofText (by rw [h]; exact hd)
    exact (pointsTo_unitFindings hwell hlaid hfound (fun h => htop (of_decide_eq_true h)) d
      hunit).imp hwithin fun n hn => .inl hn
  · obtain ⟨payload, hpayload⟩ := exists_payload hpart
    obtain ⟨token, htoken, hsends, -⟩ := hlaid.payloads e he payload hpayload
    obtain ⟨before, behind, htext, hspan, -⟩ := hlayout.piece htoken hsends
    have hpoints := pointsTo_payloadPart c depth hpayload (by rw [hspan]; rfl) d hpart
    refine hpoints.imp (fun s hs => ?_) fun n hn => (hlaid.nodes n hn).imp_right (hwithin _)
    rw [hspan] at hs
    have hshift : s.Within scope.start (before ++ payload.value.toList ++ behind) :=
      Span.Within.shift hs
    rwa [← htext] at hshift
termination_by (c.payloadDepth - depth, 1)

/-- **What a payload adds** to a report points into the payload, and to nodes of the unit around it. -/
theorem pointsTo_payloadPart (c : Configuration) (depth : Nat) {g : Graph} {e : Edge}
    {payload : Located String} (hpayload : e.details.payload = some payload)
    (hspan : payload.span = .ofText payload.span.location payload.value.toList) :
    ∀ d ∈ payloadPart c depth g e,
      d.PointsTo (Span.Within payload.span.location payload.value.toList) g.nodes := by
  intro d hd
  have hreads := payloadReads_payloadPart c depth g e
  generalize payloadPart c depth g e = part at hreads hd
  cases hreads with
  | absent _ => exact absurd hd List.not_mem_nil
  | @deep sent hsent _ =>
    obtain rfl := Option.some.inj (hpayload.symm.trans hsent)
    rw [List.mem_singleton.1 hd]
    exact pointsTo_primary rfl ⟨[], payload.value.toList, [], (List.append_nil _).symm, hspan⟩
  | @read sent draft hsent hdepth hread =>
    obtain rfl := Option.some.inj (hpayload.symm.trans hsent)
    exact pointsTo_lintAt c (depth + 1) hread (fun h => absurd h (Nat.succ_ne_zero depth)) d hd
  | @refused sent draft error hsent hdepth hread =>
    obtain rfl := Option.some.inj (hpayload.symm.trans hsent)
    have hlayout := (Scanner.startingAt payload.span.location payload.value).layout
    rcases List.mem_append.1 hd with hfound | herror
    · rw [show draft = (Draft.ofText _ _ _).1 from (congrArg Prod.fst hread).symm] at hfound
      exact (pointsTo_ofText hfound).imp (fun s hs => hlayout.within_of_anchored hs)
        fun n hn => .inl hn
    · rw [List.mem_singleton.1 herror]
      exact pointsTo_primary rfl (within_error hread)
termination_by (c.payloadDepth - depth, 0)

end

/-! ### Rejections -/

/-- A unit is rejected for its obstacles only. -/
theorem execute_rejected {σ : Type} {c : Configuration} {executor : Executor σ} {u : SourceUnit}
    {s : σ} {rejected : List Diagnostic} (h : u.graph.WellFormed)
    (hrejected : (execute c executor u s).1 = .error (.rejected rejected)) :
    rejected = obstacles c u := by
  rcases execute_outcomes c executor h s with ⟨-, hexecuted⟩ | ⟨-, -, path, others, -, hexecuted⟩ |
    ⟨-, -, order, -, -, ⟨s', -, hexecuted⟩ | ⟨before, v, behind, message, s', s'', -, -, -, hexecuted⟩⟩ <;>
    rw [hexecuted] at hrejected
  · exact (ExecutionError.rejected.inj (Except.error.inj hrejected)).symm
  · exact absurd (Except.error.inj hrejected) ExecutionError.noConfusion
  · cases hrejected
  · exact absurd (Except.error.inj hrejected) ExecutionError.noConfusion

/-- The obstacles are among the findings of the unit. -/
theorem obstacles_subset {c : Configuration} {u : SourceUnit} (h : u.graph.WellFormed) :
    obstacles c u ⊆ unitFindings c true u := by
  intro d hd
  rw [unitFindings_eq c true h]
  have hmem := (List.mem_filter.1 hd).1
  simp only [List.mem_append, topFindings, if_true] at hmem ⊢
  tauto

/-- What is shown to the user about a result. -/
def shown : Except Failure Outcome → List Reportable
  | .ok (.linted report) => report.diagnostics.map .ofDiagnostic
  | .ok (.executed _) => []
  | .error failure => failure.reportables

/-- What is shown comes from a report, a rejection or a refusal. -/
theorem mem_shown {result : Except ProcessingError Outcome} {source : String} {r : Reportable}
    {label : Label} (hr : r ∈ shown (result.mapError (Failure.ofProcessing source)))
    (hlabel : label ∈ r.labels) :
    (∃ report, result = .ok (.linted report) ∧ ∃ d ∈ report.diagnostics, label ∈ d.labels) ∨
    (∃ rejected, result = .error (.execution (.rejected rejected)) ∧
      ∃ d ∈ rejected, label ∈ d.labels) ∨
    ∃ error, result = .error (.unreadable error) ∧ label.span = error.span := by
  rcases result with failure | outcome
  · cases failure with
    | unreadable error =>
      rw [List.mem_singleton.1 hr] at hlabel
      exact .inr (.inr ⟨error, rfl, congrArg Label.span (List.mem_singleton.1 hlabel)⟩)
    | execution error =>
      cases error with
      | rejected errors =>
        obtain ⟨d, hd, rfl⟩ := List.mem_map.1 hr
        exact .inr (.inl ⟨errors, rfl, d, hd, hlabel⟩)
      | cycle path =>
        rw [List.mem_singleton.1 hr] at hlabel
        exact absurd hlabel List.not_mem_nil
      | nodeFailed node message trace =>
        rw [List.mem_singleton.1 hr] at hlabel
        exact absurd hlabel List.not_mem_nil
  · cases outcome with
    | executed execution => exact absurd hr List.not_mem_nil
    | linted report =>
      obtain ⟨d, hd, rfl⟩ := List.mem_map.1 hr
      exact .inl ⟨report, rfl, d, hd, hlabel⟩

/-! ### Whole sources -/

section

variable {c : Configuration} {source : String} {draft : Draft} {d : Diagnostic} {label : Label}

theorem trueIn_of_pointsTo (h : d.PointsTo (Span.Within .start source.toList) [])
    (hlabel : label ∈ d.labels) : label.span.TrueIn source := by
  rcases h.labels label hlabel with hwithin | ⟨n, hn, -⟩
  · exact hwithin.trueIn
  · exact absurd hn List.not_mem_nil

theorem trueIn_lint (hread : Draft.ofText c.budget {} source = (draft, .ok ()))
    (hd : d ∈ (lint c draft.toUnit).diagnostics) (hlabel : label ∈ d.labels) :
    label.span.TrueIn source :=
  trueIn_of_pointsTo (pointsTo_lintAt c 0 hread (fun _ => rfl) d hd) hlabel

theorem trueIn_obstacles (hread : Draft.ofText c.budget {} source = (draft, .ok ()))
    (hd : d ∈ obstacles c draft.toUnit) (hlabel : label ∈ d.labels) : label.span.TrueIn source := by
  obtain ⟨hwell, hlaid⟩ := laidOver_ofText hread
  have hfound : ∀ d ∈ draft.diagnostics, d.PointsTo (Span.Anchored _) [] :=
    fun d hd => pointsTo_ofText (by rw [hread]; exact hd)
  have hpoints := pointsTo_unitFindings hwell hlaid hfound (fun _ => rfl) d
    (obstacles_subset hwell hd)
  have hlayout := (Scanner.startingAt .start source).layout
  exact trueIn_of_pointsTo
    (hpoints.imp (fun s hs => hlayout.within_of_anchored hs) fun n hn => .inl hn) hlabel

end

/-- **Every reported position** is true in the source, in both modes, under every configuration, and
however deep the payload that it lies in.

* All labels of the findings in a report are.
* So are those of the errors for which a unit is rejected.
* So is the position of the error for which a source is refused.
* What is shown to the user never points outside the source. -/
theorem positions_true (c : Configuration) (mode : Mode) (left : Draft) (source : String) :
    let result := (Session.run { Session.ofMode mode c with draft := left } source).1
    (∀ report, result = .ok (.linted report) →
      ∀ d ∈ report.diagnostics, ∀ label ∈ d.labels, label.span.TrueIn source) ∧
    (∀ rejected, result = .error (.execution (.rejected rejected)) →
      ∀ d ∈ rejected, ∀ label ∈ d.labels, label.span.TrueIn source) ∧
    (∀ error, result = .error (.unreadable error) → error.span.TrueIn source) ∧
    ∀ r ∈ shown (result.mapError (Failure.ofProcessing source)), ∀ label ∈ r.labels,
      label.span.start + label.span.length ≤ source.utf8ByteSize := by
  intro result
  have hlinted : ∀ report, result = .ok (.linted report) →
      ∀ d ∈ report.diagnostics, ∀ label ∈ d.labels, label.span.TrueIn source := by
    intro report h d hd label hlabel
    rcases hread : Draft.ofText c.budget {} source with ⟨draft, error | ⟨⟩⟩
    · cases h.symm.trans (Session.run_of_error hread)
    · have hresult := h.symm.trans (Session.run_of_ok hread)
      cases mode with
      | lint =>
        obtain rfl : report = lint c draft.toUnit := Outcome.linted.inj (Except.ok.inj hresult)
        exact trueIn_lint hread hd hlabel
      | app =>
        change _ = ((execute c simulate draft.toUnit ()).1.map _).mapError _ at hresult
        generalize (execute c simulate draft.toUnit ()).1 = executed at hresult
        cases executed <;> cases hresult
  have hrejected : ∀ rejected, result = .error (.execution (.rejected rejected)) →
      ∀ d ∈ rejected, ∀ label ∈ d.labels, label.span.TrueIn source := by
    intro rejected h d hd label hlabel
    rcases hread : Draft.ofText c.budget {} source with ⟨draft, error | ⟨⟩⟩
    · cases h.symm.trans (Session.run_of_error hread)
    · have hresult := h.symm.trans (Session.run_of_ok hread)
      cases mode with
      | lint => cases hresult
      | app =>
        have hobstacles : ∀ rejected,
            (execute c simulate draft.toUnit ()).1 = .error (.rejected rejected) →
              rejected = obstacles c draft.toUnit :=
          fun rejected => execute_rejected (laidOver_ofText hread).1
        change _ = ((execute c simulate draft.toUnit ()).1.map _).mapError _ at hresult
        generalize (execute c simulate draft.toUnit ()).1 = executed at hresult hobstacles
        cases executed with
        | ok execution => cases hresult
        | error error =>
          obtain rfl := ProcessingError.execution.inj (Except.error.inj hresult)
          exact trueIn_obstacles hread (hobstacles rejected rfl ▸ hd) hlabel
  have hrefused : ∀ error, result = .error (.unreadable error) → error.span.TrueIn source := by
    intro error h
    rcases hread : Draft.ofText c.budget {} source with ⟨draft, other | ⟨⟩⟩
    · have hresult := h.symm.trans (Session.run_of_error hread)
      obtain rfl := ProcessingError.unreadable.inj (Except.error.inj hresult)
      exact (within_error hread).trueIn
    · have hresult := h.symm.trans (Session.run_of_ok hread)
      generalize Behavior.process _ draft.toUnit = processed at hresult
      cases processed <;> cases hresult
  refine ⟨hlinted, hrejected, hrefused, fun r hr label hlabel => ?_⟩
  rcases mem_shown hr hlabel with ⟨report, h, d, hd, hmem⟩ | ⟨rejected, h, d, hd, hmem⟩ |
    ⟨error, h, hspan⟩
  · exact (hlinted report h d hd label hmem).inside
  · exact (hrejected rejected h d hd label hmem).inside
  · rw [hspan]
    exact (hrefused error h).inside

end CallGraph
