import Mathlib.Data.List.Forall2
import CallGraph.Proofs.Graph.Cycle
import CallGraph.Proofs.Lint.Sorting
import CallGraph.Proofs.Unit.Isolation

/-!
# What a report lists

A report lists everything that is found about a unit, and nothing else.

* `duplicateEdges_eq_nil`, `danglingReferences_eq_nil` — looking at a well-formed graph once more
  finds nothing;
* `diagnostics_lintAt` — the findings of a report, one level of payloads at a time;
* `lintPayload_cases` — a payload is linted one level deeper or refused;
* `payloadFindings_eq_run` — a session nested one level deeper gives what a payload adds;
* `report_complete` — **the report is complete**, for every graph that calls build and every depth.
-/

namespace CallGraph

/-! ### Looking at the graph once more -/

section

variable {g : Graph}

/-- Elements that stand next to each other are related. -/
theorem rel_of_mem_zip_tail {α : Type} {r : α → α → Prop} {l : List α} (h : l.Pairwise r) :
    ∀ p ∈ l.zip l.tail, r p.1 p.2 := by
  induction l with
  | nil => simp
  | cons a l ih =>
    cases l with
    | nil => simp
    | cons b l =>
      intro p hp
      rw [List.tail_cons, List.zip_cons_cons] at hp
      rcases List.mem_cons.1 hp with rfl | hp
      · exact (List.pairwise_cons.1 h).1 b List.mem_cons_self
      · exact ih h.of_cons p hp

/-- No two edges are duplicates. -/
theorem duplicateEdges_eq_nil (h : g.WellFormed) : duplicateEdges g = [] := by
  have hsort : Edge.sort g.edges = g.edges := by
    refine List.mergeSort_of_pairwise (h.ascending.imp fun {a b} hlt => ?_)
    rw [hlt]
    rfl
  unfold duplicateEdges
  rw [hsort]
  refine List.filterMap_eq_nil_iff.2 fun p hp => ?_
  have hlt : p.1.order p.2 = .lt := rel_of_mem_zip_tail h.ascending p hp
  have hdistinct : p.1.duplicates p.2 = false := by
    rw [Edge.duplicates, hlt]
    rfl
  simp [hdistinct]

/-- No edge has an end that is not declared. -/
theorem danglingReferences_eq_nil (h : g.WellFormed) : danglingReferences g = [] := by
  unfold danglingReferences
  refine List.flatMap_eq_nil_iff.2 fun e he => ?_
  rw [Graph.missingEnds_eq, Edge.undeclared_eq_nil.2 ⟨h.source_mem he, h.target_mem he⟩]
  rfl

/-! ### Single checks -/

theorem exists_closingEdge_of_mem (h : g.WellFormed) {path : List String} (hpath : path ∈ g.cycles) :
    ∃ e ∈ g.edges, g.closingEdge? path = some e := by
  obtain ⟨root, -, hcircle⟩ := h.circle_of_mem_cycles hpath
  obtain ⟨e, he, hclosing, -⟩ := hcircle.closing
  exact ⟨e, he, hclosing⟩

/-- Each cycle is found at the edge that closes it. -/
theorem forall₂_cycleFindings (h : g.WellFormed) :
    List.Forall₂ (fun path finding => ∃ e ∈ g.edges, g.closingEdge? path = some e ∧
      finding = (Fault.cycle path).toDiagnostic e.span) g.cycles (cycleFindings g) := by
  unfold cycleFindings
  rw [List.forall₂_map_right_iff, List.forall₂_same]
  intro path hpath
  obtain ⟨e, he, hclosing⟩ := exists_closingEdge_of_mem h hpath
  refine ⟨e, he, hclosing, ?_⟩
  rw [hclosing]

theorem mem_cycleFindings (h : g.WellFormed) {d : Diagnostic} :
    d ∈ cycleFindings g ↔ ∃ path ∈ g.cycles, ∃ e ∈ g.edges, g.closingEdge? path = some e ∧
      d = (Fault.cycle path).toDiagnostic e.span := by
  unfold cycleFindings
  rw [List.mem_map]
  constructor
  · rintro ⟨path, hpath, rfl⟩
    obtain ⟨e, he, hclosing⟩ := exists_closingEdge_of_mem h hpath
    refine ⟨path, hpath, e, he, hclosing, ?_⟩
    rw [hclosing]
  · rintro ⟨path, hpath, e, -, hclosing, rfl⟩
    refine ⟨path, hpath, ?_⟩
    rw [hclosing]

/-- What is found about a setting is that it is out of range. -/
theorem checkSetting_cases {key : String} {v : Located Value} {d : Diagnostic}
    (h : checkSetting key v = some d) :
    d = invalidResponse v ∨ ∃ expected help, d = invalidTiming key v expected help := by
  unfold checkSetting at h
  dsimp only at h
  split at h
  all_goals first
    | exact absurd h (Option.some_ne_none d).symm
    | split at h
      · exact absurd h (Option.some_ne_none d).symm
      · obtain rfl := Option.some.inj h
        first
          | exact .inl rfl
          | exact .inr ⟨_, _, rfl⟩

theorem mem_checkSettings {d : Diagnostic} (hd : d ∈ checkSettings g) :
    ∃ p ∈ g.settings.entries, d = invalidResponse p.2 ∨
      ∃ expected help, d = invalidTiming p.1 p.2 expected help := by
  obtain ⟨p, hp, hcheck⟩ := List.mem_filterMap.1 hd
  exact ⟨p, hp, checkSetting_cases hcheck⟩

theorem mem_checkAddress {required : Bool} {n : Node} {d : Diagnostic}
    (hd : d ∈ checkAddress required n) :
    (∃ v, d = invalidAttribute n "port" v "ports are numbers between 1 and 65535") ∨
      (∃ v, d = invalidAttribute n "hostname" v
        "hostnames are non-empty and contain no double quotes") ∨ d = missingAddress n := by
  unfold checkAddress at hd
  rw [List.mem_append, List.mem_append] at hd
  rcases hd with (hport | hhostname) | hmissing
  · obtain ⟨v, -, rfl⟩ := Option.map_eq_some_iff.1 (Option.mem_toList.1 hport)
    exact .inl ⟨v, rfl⟩
  · obtain ⟨v, -, rfl⟩ := Option.map_eq_some_iff.1 (Option.mem_toList.1 hhostname)
    exact .inr (.inl ⟨v, rfl⟩)
  · split at hmissing
    · exact .inr (.inr (List.mem_singleton.1 hmissing))
    · exact absurd hmissing List.not_mem_nil

/-- The nodes that no edge starts from and none leads to. -/
def Graph.untouched (g : Graph) : List Node :=
  g.nodes.filter fun n => ∀ e ∈ g.edges, e.source ≠ n.name ∧ e.target ≠ n.name

theorem unusedNodes_eq (h : g.WellFormed) : unusedNodes g = g.untouched.map unusedNode := by
  unfold unusedNodes Graph.untouched
  congr 1
  refine List.filter_congr fun n _ => ?_
  rw [h.edgesFrom_eq, Graph.edgesTo, Bool.eq_iff_iff, Bool.and_eq_true, List.isEmpty_iff,
    List.isEmpty_iff, List.filter_eq_nil_iff, List.filter_eq_nil_iff, decide_eq_true_iff]
  simp only [decide_eq_true_iff]
  exact ⟨fun hnone e he => ⟨hnone.1 e he, hnone.2 e he⟩,
    fun hnone => ⟨fun e he => (hnone e he).1, fun e he => (hnone e he).2⟩⟩

/-- What is found only about a unit that is no payload. -/
def topFindings (c : Configuration) (g : Graph) : List Diagnostic :=
  checkAddresses c.requireAddress g ++ if c.unusedNodes then g.untouched.map unusedNode else []

/-- The findings of a unit: what was found before, and what the checks find. -/
theorem unitFindings_eq (c : Configuration) (top : Bool) {u : SourceUnit} (h : u.graph.WellFormed) :
    unitFindings c top u = u.diagnostics ++ cycleFindings u.graph ++ checkSettings u.graph ++
      if top then topFindings c u.graph else [] := by
  unfold unitFindings topFindings
  simp only [duplicateEdges_eq_nil h, danglingReferences_eq_nil h, unusedNodes_eq h, List.append_nil,
    List.filter_nil]

end

/-! ### Payloads -/

/-- Reads the payload of an edge as a unit and lints it one level deeper. -/
def lintPayload (c : Configuration) (depth : Nat) (g : Graph) (e : Edge)
    (payload : Located String) : Except ProcessingError Outcome × Draft :=
  processText (fun u => .ok (.linted (lintAt c (depth + 1) u))) c.budget
    (payloadScope g e.target payload) payload.value

/-- What the payload of an edge adds to the report of a unit at some depth. -/
def payloadPart (c : Configuration) (depth : Nat) (g : Graph) (e : Edge) : List Diagnostic :=
  match e.details.payload with
  | none => []
  | some payload =>
    if c.payloadDepth ≤ depth then [deepPayload c.payloadDepth payload]
    else payloadFindings payload (lintPayload c depth g e payload)

section

variable (c : Configuration) (depth : Nat)

/-- What all payloads add to the report of a unit at some depth. -/
def payloadParts (g : Graph) : List Diagnostic :=
  if c.payloads then g.edges.flatMap (payloadPart c depth g) else []

/-- **The findings of a report**, one level of payloads at a time. -/
theorem diagnostics_lintAt (u : SourceUnit) :
    (lintAt c depth u).diagnostics =
      (unitFindings c (depth = 0) u ++ payloadParts c depth u.graph).mergeSort Diagnostic.before := by
  have hreport : ∀ part : Edge → List Diagnostic,
      (∀ e ∈ u.graph.edges, part e = payloadPart c depth u.graph e) →
      (unitFindings c (depth = 0) u ++ if c.payloads then u.graph.edges.flatMap part else []) =
        unitFindings c (depth = 0) u ++ payloadParts c depth u.graph := by
    intro part hpart
    rw [payloadParts, List.flatMap_congr hpart]
  unfold lintAt
  cases hlevels : c.payloadDepth - depth with
  | zero =>
    have hdeep : c.payloadDepth ≤ depth := Nat.sub_eq_zero_iff_le.1 hlevels
    refine congrArg (fun findings => findings.mergeSort Diagnostic.before) (hreport _ fun e _ => ?_)
    unfold payloadPart
    cases e.details.payload with
    | none => rfl
    | some payload => simp [hdeep]
  | succ levels =>
    have hdeep : ¬c.payloadDepth ≤ depth := by omega
    have hnested : (fun v => lintAt c (depth + 1) v) = lintLevels c false levels := by
      have hlevels' : c.payloadDepth - (depth + 1) = levels := by omega
      funext v
      simp [lintAt, hlevels']
    refine congrArg (fun findings => findings.mergeSort Diagnostic.before) (hreport _ fun e _ => ?_)
    unfold payloadPart
    cases e.details.payload with
    | none => rfl
    | some payload =>
      simp only [hdeep, if_false, Option.map_some, Option.getD_some, lintPayload]
      rw [← hnested]

/-- **A payload** is linted as a unit one level deeper, or its text is refused. -/
theorem lintPayload_cases (g : Graph) (e : Edge) (payload : Located String) :
    let scope := payloadScope g e.target payload
    (∃ draft rest, Draft.ofText c.budget scope payload.value = (draft, .ok ()) ∧
      lintPayload c depth g e payload =
        (.ok (.linted (lintAt c (depth + 1) draft.toUnit)), rest)) ∨
    ∃ draft error, Draft.ofText c.budget scope payload.value = (draft, .error error) ∧
      lintPayload c depth g e payload = (.error (.unreadable error), draft) := by
  intro scope
  unfold lintPayload processText
  rcases hread : Draft.ofText c.budget scope payload.value with ⟨draft, error | ⟨⟩⟩
  · exact Or.inr ⟨draft, error, rfl, rfl⟩
  · exact Or.inl ⟨draft, _, rfl, rfl⟩

/-- The session that lints the payload of an edge: it is nested one level deeper, starts at the
callee where the payload stands, and sees the nodes of the graph. -/
def payloadSession (g : Graph) (e : Edge) (payload : Located String) : Session :=
  let plain : Session := { behavior := .lint c (depth + 1), budget := c.budget }
  (plain.withOrigin e.target payload.span.location).withNodes g.nodes

/-- **What a payload adds** is what a session nested one level deeper answers, and what it has found
if the text is refused. -/
theorem payloadFindings_eq_run (g : Graph) (e : Edge) (payload : Located String) :
    let (answer, left) := (payloadSession c depth g e payload).run payload.value
    payloadFindings payload (lintPayload c depth g e payload) =
      payloadFindings payload (answer, left.draft) := by
  have hnested : payloadSession c depth g e payload =
      .unused (.lint c (depth + 1)) c.budget (payloadScope g e.target payload) :=
    (Session.setUp_unused _ _ _ _ _).2.1
  rw [hnested]
  unfold Session.run lintPayload processText
  rw [Session.parse_eq]
  simp only [Session.unused]
  rcases Draft.ofText c.budget (payloadScope g e.target payload) payload.value with
    ⟨draft, error | ⟨⟩⟩ <;> rfl

end

/-- The ways in which a payload adds to the report of a unit at some depth. -/
inductive PayloadAdds (c : Configuration) (depth : Nat) (g : Graph) (e : Edge) :
    List Diagnostic → Prop where
  /-- There is none. -/
  | absent : e.details.payload = none → PayloadAdds c depth g e []
  /-- It is too deep, and one warning says so. -/
  | deep {payload : Located String} : e.details.payload = some payload → c.payloadDepth ≤ depth →
    PayloadAdds c depth g e [deepPayload c.payloadDepth payload]
  /-- It is linted, and its report is taken over. -/
  | linted {payload : Located String} {report : Report} {draft : Draft} :
    e.details.payload = some payload → depth < c.payloadDepth →
    lintPayload c depth g e payload = (.ok (.linted report), draft) →
    PayloadAdds c depth g e report.diagnostics
  /-- Its text is refused: what was found before that, and the error behind it. -/
  | refused {payload : Located String} {error : SyntaxError} {draft : Draft} :
    e.details.payload = some payload → depth < c.payloadDepth →
    lintPayload c depth g e payload = (.error (.unreadable error), draft) →
    PayloadAdds c depth g e (draft.diagnostics ++ [error.toDiagnostic])

theorem payloadAdds_payloadPart (c : Configuration) (depth : Nat) (g : Graph) (e : Edge) :
    PayloadAdds c depth g e (payloadPart c depth g e) := by
  unfold payloadPart
  cases hpayload : e.details.payload with
  | none => exact .absent hpayload
  | some payload =>
    by_cases hdeep : c.payloadDepth ≤ depth
    · simp only [hdeep, if_true]
      exact .deep hpayload hdeep
    · simp only [hdeep, if_false]
      rcases lintPayload_cases c depth g e payload with ⟨draft, rest, -, hrun⟩ |
        ⟨draft, error, -, hrun⟩ <;> rw [hrun]
      · exact .linted hpayload (Nat.lt_of_not_le hdeep) hrun
      · exact .refused hpayload (Nat.lt_of_not_le hdeep) hrun

/-- **The report is complete**, for every graph that calls build, whatever was found before, and at
every depth.

* It lists by position, in the one stable order, what was found before, the cycles, what is wrong with
  the settings, at the top what is wrong with the nodes, and what the payloads add edge by edge.
* Each cycle is listed at the edge that closes it.
* Each payload adds a warning if it is too deep, and otherwise its own report, or what was found
  before its text was refused and the error.
* Looking for duplicate edges and dangling references once more finds nothing.
* Linting a payload never executes it, and fails only if its text is refused. -/
theorem report_complete (c : Configuration) (depth : Nat) (changes : List Change)
    (incoming : List Diagnostic) :
    let g := Graph.built changes
    let report := lintAt c depth ⟨g, incoming⟩
    ∃ (circles : List Diagnostic) (added : List (List Diagnostic)),
      let findings := incoming ++ circles ++ checkSettings g ++
        (if depth = 0 then topFindings c g else []) ++ added.flatten
      SortedByPlace findings report.diagnostics ∧
      (∀ other, SortedByPlace findings other → other = report.diagnostics) ∧
      List.Forall₂ (fun path finding => ∃ e ∈ g.edges, g.closingEdge? path = some e ∧
        finding = (Fault.cycle path).toDiagnostic e.span) g.cycles circles ∧
      List.Forall₂ (PayloadAdds c depth g) (if c.payloads then g.edges else []) added ∧
      duplicateEdges g = [] ∧ danglingReferences g = [] ∧
      ∀ e payload,
        (∃ nested draft, lintPayload c depth g e payload = (.ok (.linted nested), draft)) ∨
        ∃ error draft, lintPayload c depth g e payload = (.error (.unreadable error), draft) := by
  intro g report
  have h : g.WellFormed := Graph.wellFormed_built changes
  have hreport : report.diagnostics = (incoming ++ cycleFindings g ++ checkSettings g ++
      (if depth = 0 then topFindings c g else []) ++ payloadParts c depth g).mergeSort
        Diagnostic.before := by
    rw [diagnostics_lintAt, unitFindings_eq c _ (u := ⟨g, incoming⟩) h]
    simp only [decide_eq_true_eq]
  have hparts : payloadParts c depth g =
      ((if c.payloads then g.edges else []).map (payloadPart c depth g)).flatten := by
    unfold payloadParts
    cases c.payloads <;> rfl
  have hsorted := sortedByPlace_mergeSort (incoming ++ cycleFindings g ++ checkSettings g ++
      (if depth = 0 then topFindings c g else []) ++ payloadParts c depth g)
  rw [← hreport, hparts] at hsorted
  refine ⟨cycleFindings g, _, hsorted, fun other hother => hsorted.unique hother,
    forall₂_cycleFindings h, ?_, duplicateEdges_eq_nil h, danglingReferences_eq_nil h, ?_⟩
  · rw [List.forall₂_map_right_iff, List.forall₂_same]
    exact fun e _ => payloadAdds_payloadPart c depth g e
  · intro e payload
    rcases lintPayload_cases c depth g e payload with ⟨draft, rest, -, hrun⟩ |
      ⟨draft, error, -, hrun⟩
    · exact Or.inl ⟨_, rest, hrun⟩
    · exact Or.inr ⟨error, draft, hrun⟩

end CallGraph
