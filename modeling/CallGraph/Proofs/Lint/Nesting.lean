import CallGraph.Proofs.Lint.Depth

/-!
# How deep payloads are nested

Linting a unit reads its payloads as units, and lints those.  That comes to an end without a limit,
because a payload of a unit that was read is shorter than the text of the unit.

* `Draft.ofText_payload` — a payload stands between two braces in the text of its unit;
* `SourceUnit.Contains` — one unit inside a payload of another one, and `wellFounded_contains` — units
  are not nested forever;
* `lintLevel`, `lintLevel_eq` — a report needs those of the units one level deeper, and nothing else;
* `Nests` — payloads that are read one inside the other, `Nests.length_le_limit` and
  `Nests.length_le_text` — how many;
* `payload_linting_terminates` — **linting payloads** comes to an end whatever the limit;
* `limit_beyond_text` — a limit that the text is too short for makes no difference.
-/

namespace CallGraph

/-! ### Payloads in a text -/

section

variable {budget : Nat} {scope : Scope} {text : String} {draft : Draft} {e : Edge}
  {payload : Located String}

/-- **A payload** of a unit that is read is a piece of its text, between two braces.  It does not
matter when its edge was inserted. -/
theorem Draft.ofText_payload (h : Draft.ofText budget scope text = (draft, .ok ()))
    (he : e ∈ draft.graph.edges) (hpayload : e.details.payload = some payload) :
    ∃ before behind, text = before ++ "\x7b" ++ payload.value ++ "\x7d" ++ behind := by
  obtain ⟨token, htoken, hsends, -⟩ := (laidOver_ofText h).2.payloads e he payload hpayload
  obtain ⟨before, behind, htext, -⟩ :=
    (Scanner.startingAt scope.start text).layout.encloses token htoken _ hsends.1
  refine ⟨.ofList before, .ofList behind, String.toList_injective ?_⟩
  rw [show text.toList = _ from htext]
  simp [String.toList_append]

/-- A payload is at least two bytes shorter than the text around it. -/
theorem Draft.payload_shorter (h : Draft.ofText budget scope text = (draft, .ok ()))
    (he : e ∈ draft.graph.edges) (hpayload : e.details.payload = some payload) :
    payload.value.utf8ByteSize + 2 ≤ text.utf8ByteSize := by
  obtain ⟨before, behind, rfl⟩ := Draft.ofText_payload h he hpayload
  have hopening : "\x7b".utf8ByteSize = 1 := by decide
  have hclosing : "\x7d".utf8ByteSize = 1 := by decide
  simp only [String.utf8ByteSize_append, hopening, hclosing]
  omega

end

/-! ### Units inside payloads -/

/-- The unit `v` is what a payload of the unit `u` is read as. -/
def SourceUnit.Contains (budget : Nat) (u v : SourceUnit) : Prop :=
  ∃ e ∈ u.graph.edges, ∃ payload draft, e.details.payload = some payload ∧
    Draft.ofText budget (payloadScope u.graph e.target payload) payload.value = (draft, .ok ()) ∧
    v = draft.toUnit

/-- A unit that is read contains units with shorter texts, down to units without payloads. -/
theorem acc_contains {budget : Nat} {scope : Scope} {text : String} {draft : Draft}
    (h : Draft.ofText budget scope text = (draft, .ok ())) :
    Acc (fun v u => SourceUnit.Contains budget u v) draft.toUnit := by
  refine Acc.intro _ fun v hv => ?_
  obtain ⟨e, he, payload, nested, hpayload, hread, rfl⟩ := hv
  have hshorter := Draft.payload_shorter h he hpayload
  exact acc_contains hread
termination_by text.utf8ByteSize

/-- **Units are not nested forever**, whatever graph is the outermost one. -/
theorem wellFounded_contains (budget : Nat) :
    WellFounded fun v u => SourceUnit.Contains budget u v := by
  refine WellFounded.intro fun u => Acc.intro u fun v hv => ?_
  obtain ⟨e, he, payload, draft, hpayload, hread, rfl⟩ := hv
  exact acc_contains hread

/-! ### One level -/

section

variable {c : Configuration} {depth : Nat}

/-- The report of a unit at some depth, given the reports of the units inside its payloads. -/
def lintLevel (c : Configuration) (depth : Nat) (inner : SourceUnit → Report) (u : SourceUnit) :
    Report :=
  let inPayload (e : Edge) (payload : Located String) : List Diagnostic :=
    if c.payloadDepth ≤ depth then [deepPayload c.payloadDepth payload]
    else
      payloadFindings payload
        (processText (fun v => .ok (.linted (inner v))) c.budget
          (payloadScope u.graph e.target payload) payload.value)
  let inPayloads :=
    if c.payloads then
      u.graph.edges.flatMap fun e => (e.details.payload.map (inPayload e)).getD []
    else []
  ⟨(unitFindings c (depth = 0) u ++ inPayloads).mergeSort Diagnostic.before,
    if depth = 0 then u.graph.toDot else ""⟩

/-- **One level of a report** needs no other reports than those of the units inside the payloads, and
those only if payloads are linted and not too deep. -/
theorem lintLevel_eq {inner : SourceUnit → Report} {u : SourceUnit}
    (h : c.payloads = true → depth < c.payloadDepth → ∀ v, u.Contains c.budget v →
      inner v = lintAt c (depth + 1) v) :
    lintLevel c depth inner u = lintAt c depth u := by
  have hpart : ∀ e ∈ u.graph.edges, ∀ payload, e.details.payload = some payload →
      c.payloads = true → depth < c.payloadDepth →
      payloadFindings payload (processText (fun v => .ok (.linted (inner v))) c.budget
        (payloadScope u.graph e.target payload) payload.value) =
        payloadFindings payload (lintPayload c depth u.graph e payload) := by
    intro e he payload hpayload hpayloads hdepth
    unfold lintPayload processText
    rcases hread : Draft.ofText c.budget (payloadScope u.graph e.target payload) payload.value with
      ⟨draft, error | ⟨⟩⟩
    · rfl
    · have hinner := h hpayloads hdepth _ ⟨e, he, payload, draft, hpayload, hread, rfl⟩
      exact congrArg Report.diagnostics hinner
  have hdiagnostics : (lintLevel c depth inner u).diagnostics = (lintAt c depth u).diagnostics := by
    rw [diagnostics_lintAt, payloadParts]
    unfold lintLevel
    refine congrArg (fun parts => (unitFindings c (depth = 0) u ++ parts).mergeSort _) ?_
    cases hpayloads : c.payloads with
    | false => rfl
    | true =>
      refine List.flatMap_congr fun e he => ?_
      unfold payloadPart
      cases hpayload : e.details.payload with
      | none => rfl
      | some payload =>
        by_cases hdeep : c.payloadDepth ≤ depth
        · simp only [hdeep, if_true, Option.map_some, Option.getD_some]
        · simp only [hdeep, if_false, Option.map_some, Option.getD_some]
          exact hpart e he payload hpayload hpayloads (Nat.lt_of_not_le hdeep)
  exact congrArg₂ Report.mk hdiagnostics (dot_lintAt c depth u).symm

/-! ### Nested payloads -/

/-- The texts of payloads that are read one inside the other while a unit at some depth is linted, the
outermost first. -/
inductive Nests (c : Configuration) : Nat → SourceUnit → List String → Prop where
  | nil {depth : Nat} {u : SourceUnit} : Nests c depth u []
  /-- The payload is refused, so that nothing inside it is read. -/
  | refused {depth : Nat} {u : SourceUnit} {e : Edge} {payload : Located String} {draft : Draft}
    {error : SyntaxError} : c.payloads = true → depth < c.payloadDepth → e ∈ u.graph.edges →
    e.details.payload = some payload →
    Draft.ofText c.budget (payloadScope u.graph e.target payload) payload.value =
      (draft, .error error) →
    Nests c depth u [payload.value]
  /-- The payload is read and linted one level deeper. -/
  | read {depth : Nat} {u : SourceUnit} {e : Edge} {payload : Located String} {draft : Draft}
    {texts : List String} : c.payloads = true → depth < c.payloadDepth → e ∈ u.graph.edges →
    e.details.payload = some payload →
    Draft.ofText c.budget (payloadScope u.graph e.target payload) payload.value = (draft, .ok ()) →
    Nests c (depth + 1) draft.toUnit texts → Nests c depth u (payload.value :: texts)

namespace Nests

variable {u : SourceUnit} {texts : List String}

/-- The limit is never exceeded. -/
theorem length_le_limit (h : Nests c depth u texts) : texts.length ≤ c.payloadDepth - depth := by
  induction h with
  | nil => exact Nat.zero_le _
  | refused _ hdepth => exact Nat.sub_pos_of_lt hdepth
  | read _ hdepth _ _ _ _ ih =>
    rw [List.length_cons]
    omega

/-- A unit that is read nests one payload for every two bytes of its text at most. -/
theorem length_le_text (h : Nests c depth u texts) {scope : Scope} {text : String} {draft : Draft}
    (hread : Draft.ofText c.budget scope text = (draft, .ok ())) (hu : u = draft.toUnit) :
    2 * texts.length ≤ text.utf8ByteSize := by
  induction h generalizing scope text draft with
  | nil => exact Nat.zero_le _
  | refused _ _ he hpayload =>
    subst hu
    have hshorter := Draft.payload_shorter hread he hpayload
    rw [List.length_singleton]
    omega
  | read _ _ he hpayload hnested _ ih =>
    subst hu
    have hshorter := Draft.payload_shorter hread he hpayload
    have hinner := ih hnested rfl
    rw [List.length_cons]
    omega

/-- Any unit nests one payload more than the text of the outermost one allows. -/
theorem length_le_head {first : String} (h : Nests c depth u (first :: texts)) :
    2 * texts.length ≤ first.utf8ByteSize := by
  cases h with
  | refused => exact Nat.zero_le _
  | read _ _ _ _ hnested hrest => exact hrest.length_le_text hnested rfl

end Nests

end

/-- **Linting payloads comes to an end**, whatever the limit and whatever graph is linted.

* No unit is nested forever, even without a limit.
* A report at some depth needs no other reports than those of the units inside its payloads, one level
  deeper.
* A payload of a unit that is read is a piece of its text and at least two bytes shorter.
* The payloads that are read one inside the other are not more than the limit, and not more than half
  the bytes of the outermost one and one more.  If the unit itself is read from a text, they are not
  more than half the bytes of that. -/
theorem payload_linting_terminates (c : Configuration) :
    (WellFounded fun v u => SourceUnit.Contains c.budget u v) ∧
    (∀ depth inner u,
      (c.payloads = true → depth < c.payloadDepth → ∀ v, u.Contains c.budget v →
        inner v = lintAt c (depth + 1) v) →
      lintLevel c depth inner u = lintAt c depth u) ∧
    (∀ scope text draft, Draft.ofText c.budget scope text = (draft, .ok ()) →
      ∀ e ∈ draft.graph.edges, ∀ payload, e.details.payload = some payload →
        (∃ before behind, text = before ++ "\x7b" ++ payload.value ++ "\x7d" ++ behind) ∧
        payload.value.utf8ByteSize + 2 ≤ text.utf8ByteSize) ∧
    (∀ depth u first inside, Nests c depth u (first :: inside) →
      (first :: inside).length ≤ min (c.payloadDepth - depth) (first.utf8ByteSize / 2 + 1)) ∧
    ∀ scope text draft, Draft.ofText c.budget scope text = (draft, .ok ()) →
      ∀ depth texts, Nests c depth draft.toUnit texts →
        texts.length ≤ min (c.payloadDepth - depth) (text.utf8ByteSize / 2) := by
  refine ⟨wellFounded_contains c.budget, fun depth inner u h => lintLevel_eq h, ?_, ?_, ?_⟩
  · intro scope text draft hread e he payload hpayload
    exact ⟨Draft.ofText_payload hread he hpayload, Draft.payload_shorter hread he hpayload⟩
  · intro depth u first inside h
    have hlimit := h.length_le_limit
    have htext := h.length_le_head
    rw [List.length_cons] at hlimit ⊢
    omega
  · intro scope text draft hread depth texts h
    have hlimit := h.length_le_limit
    have htext := h.length_le_text hread rfl
    omega

/-! ### Limits out of reach -/

/-- The findings of reading a text are about no payload. -/
theorem ofText_ne_payloads {budget : Nat} {scope : Scope} {text : String} {draft : Draft}
    {result : Except SyntaxError Unit} {d : Diagnostic}
    (h : Draft.ofText budget scope text = (draft, result)) (hd : d ∈ draft.diagnostics) :
    d.phase? ≠ some .payloads := by
  have hfound : d ∈ (Draft.ofText budget scope text).1.diagnostics := by rw [h]; exact hd
  intro hphase
  rcases phase_ofText budget scope text hfound with hother | hother <;>
    cases hphase.symm.trans hother

/-- The findings of a unit itself are about no payload. -/
theorem unitFindings_ne_payloads {c : Configuration} {top : Bool} {scope : Scope} {text : String}
    {draft : Draft} {d : Diagnostic} (h : Draft.ofText c.budget scope text = (draft, .ok ()))
    (hd : d ∈ unitFindings c top draft.toUnit) : d.phase? ≠ some .payloads := by
  have hwell := (laidOver_ofText h).1
  rw [unitFindings_eq c top hwell] at hd
  simp only [List.mem_append] at hd
  intro hphase
  rcases hd with ((hd | hd) | hd) | hd
  · exact ofText_ne_payloads h hd hphase
  · cases hphase.symm.trans (phase_cycleFindings hwell hd)
  · cases hphase.symm.trans (phase_checkSettings hd)
  · cases top with
    | false => exact List.not_mem_nil hd
    | true => cases hphase.symm.trans (phase_topFindings hd)

/-- Where the text is too short to reach the limit, no payload is too deep. -/
theorem lintAt_ne_payloads {c : Configuration} {depth : Nat} {scope : Scope} {text : String}
    {draft : Draft} {d : Diagnostic} (h : Draft.ofText c.budget scope text = (draft, .ok ()))
    (hshort : text.utf8ByteSize < 2 * (c.payloadDepth - depth + 1))
    (hd : d ∈ (lintAt c depth draft.toUnit).diagnostics) : d.phase? ≠ some .payloads := by
  rcases mem_diagnostics_lintAt.1 hd with hunit | ⟨-, e, he, hpart⟩
  · exact unitFindings_ne_payloads h hunit
  · have hreads := payloadReads_payloadPart c depth draft.toUnit.graph e
    generalize payloadPart c depth draft.toUnit.graph e = part at hreads hpart
    cases hreads with
    | absent => exact absurd hpart List.not_mem_nil
    | deep hpayload hdeep =>
      have hshorter := Draft.payload_shorter h he hpayload
      omega
    | read hpayload hdepth hread =>
      have hshorter := Draft.payload_shorter h he hpayload
      exact lintAt_ne_payloads hread (by omega) hpart
    | @refused payload nested error hpayload hdepth hread =>
      rcases List.mem_append.1 hpart with hfound | herror
      · exact ofText_ne_payloads hread hfound
      · rw [List.mem_singleton.1 herror, phase_toDiagnostic]
        exact fun hphase => by cases hphase
termination_by c.payloadDepth - depth

/-- **A limit that the text is too short for** makes no difference: under every higher limit the
report is the same. -/
theorem limit_beyond_text {c : Configuration} {scope : Scope} {text : String} {draft : Draft}
    {limit more : Nat} (h : Draft.ofText c.budget scope text = (draft, .ok ()))
    (hshort : text.utf8ByteSize / 2 ≤ limit) :
    lint (c.downTo (limit + more)) draft.toUnit = lint (c.downTo limit) draft.toUnit := by
  have hdeepens := deepens_lintAt c (Nat.le_add_right limit more) 0 draft.toUnit
  have hdot : (lint (c.downTo (limit + more)) draft.toUnit).dot =
      (lint (c.downTo limit) draft.toUnit).dot := (dot_lintAt _ 0 _).trans (dot_lintAt _ 0 _).symm
  refine congrArg₂ Report.mk (hdeepens.eq fun d hd hcode => ?_).symm hdot
  refine lintAt_ne_payloads (c := c.downTo limit) h ?_ hd ?_
  · show text.utf8ByteSize < 2 * (limit - 0 + 1)
    omega
  · rw [Diagnostic.phase?, hcode]
    rfl

end CallGraph
