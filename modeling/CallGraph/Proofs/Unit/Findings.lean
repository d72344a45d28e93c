import CallGraph.Proofs.Unit.Accounting

/-!
# The findings of a draft

What a draft has found, read off the events as a whole.  The findings about edges that are not
stored are those of the fates; all others are remarks on one event in view of those before it.

* `Event.remarks` — the remarks on one event, and `remarksBehind` — those on several;
* `remarks_foldl` — the findings of a draft that are not about edges;
* `finds_foldl`, `finds_resolve` — all findings, before and after the deferred edges are retried.
-/

namespace CallGraph

/-! ### Remarks -/

/-- The findings that are not about edges. -/
def remarks (findings : List Diagnostic) : List Diagnostic :=
  findings.filter fun finding => !finding.isEdgeFinding

/-- The remarks on an event behind the events `before`. -/
def Event.remarks (scope : Scope) (before : List Event) : Event → List Diagnostic
  | .report finding => [finding]
  | .node s =>
    ((firsts Node.name (scope.seeds ++ nodesOf before)).find? fun n => n.name = s.name.value).toList.map
      fun first => (Fault.duplicateDeclaration s.name.value first.span).toDiagnostic s.span
  | .setting a =>
    (lastAssigned (settingsOf before) a.name).toList.map fun previous =>
      Draft.reassigned a previous.span
  | .edge s =>
    if ((s.source.map Located.value).or (impliedSource scope before)).isSome then
      (OptionReading.ofOptions s.options).diagnostics
    else []

/-- The remarks on events behind the events `before`. -/
def remarksBehind (scope : Scope) (before : List Event) : List Event → List Diagnostic
  | [] => []
  | event :: rest => event.remarks scope before ++ remarksBehind scope (before ++ [event]) rest

theorem remarks_append (findings others : List Diagnostic) :
    remarks (findings ++ others) = remarks findings ++ remarks others :=
  List.filter_append _ _

/-- Findings are remarks if none of them is about an edge. -/
theorem remarks_eq_self {findings : List Diagnostic} (h : edgeFindings findings = []) :
    remarks findings = findings := by
  rw [remarks, List.filter_eq_self]
  intro finding hfinding
  have hnot := List.filter_eq_nil_iff.1 h finding hfinding
  simpa using hnot

/-- Findings about edges are no remarks. -/
theorem remarks_eq_nil {findings : List Diagnostic} (h : edgeFindings findings = findings) :
    remarks findings = [] := by
  rw [remarks, List.filter_eq_nil_iff]
  intro finding hfinding
  have hedge := (List.filter_eq_self.1 h) finding hfinding
  simp [hedge]

theorem remarksBehind_append (scope : Scope) (before events others : List Event) :
    remarksBehind scope before (events ++ others) =
      remarksBehind scope before events ++ remarksBehind scope (before ++ events) others := by
  induction events generalizing before with
  | nil => rw [List.append_nil, List.nil_append, remarksBehind, List.nil_append]
  | cons event events ih =>
    rw [List.cons_append, remarksBehind, remarksBehind, ih, List.append_assoc, List.append_assoc]
    rfl

/-! ### One more event -/

section

variable {scope : Scope} {events : List Event} {d : Draft}

namespace Draft

/-- A node that is declared twice is remarked on. -/
theorem diagnostics_declareNode (d : Draft) (s : NodeStatement) :
    (d.declareNode s).diagnostics = d.diagnostics ++
      (d.graph.node? s.name.value).toList.map fun first =>
        (Fault.duplicateDeclaration s.name.value first.span).toDiagnostic s.span := by
  unfold declareNode Graph.insertNode
  cases hnode : d.graph.node? s.name.value with
  | none =>
    simp only [hnode]
    rfl
  | some first =>
    simp only [hnode]
    rfl

/-- A setting that is assigned twice is remarked on. -/
theorem diagnostics_assign (d : Draft) (a : Assignment) :
    (d.assign a).diagnostics = d.diagnostics ++
      (d.graph.settings.get? a.name).toList.map fun previous => reassigned a previous.span := by
  show (d.assign a).diagnostics = d.diagnostics ++
    (d.graph.settings.get? a.key.value).toList.map fun previous => reassigned a previous.span
  unfold assign Graph.assign
  cases d.graph.settings.get? a.key.value with
  | none => exact (List.append_nil _).symm
  | some previous => rfl

/-- What is found when an edge is admitted is about the edge. -/
theorem remarks_admitEdge (h : Ascending d.graph.edges) (e : Edge) :
    remarks (d.admitEdge e).diagnostics = remarks d.diagnostics := by
  rcases d.admitEdge_cases h e with ⟨-, heq⟩ | ⟨-, -, edges, faults, henters, heq⟩
  · rw [heq]
  · rw [heq]
    show remarks (d.diagnostics ++ _) = _
    rw [remarks_append]
    cases henters with
    | duplicate _ _ => exact List.append_nil _
    | new _ _ _ => exact List.append_nil _

end Draft

/-- **One more event** is remarked on in view of those before it. -/
theorem Records.remarks_record (h : Records scope events d) {event : Event}
    (hreport : ∀ finding, event = .report finding → finding.isEdgeFinding = false) :
    remarks (d.record scope event).diagnostics =
      remarks d.diagnostics ++ event.remarks scope events := by
  cases event with
  | report finding =>
    have hself : remarks [finding] = [finding] := by
      rw [remarks, List.filter_singleton, hreport finding rfl]
      rfl
    show remarks (d.diagnostics ++ [finding]) = _
    rw [remarks_append, hself]
    rfl
  | node s =>
    show remarks (d.declareNode s).diagnostics = _
    rw [d.diagnostics_declareNode, remarks_append, Graph.node?, h.nodes_eq, Event.remarks]
    congr 1
    apply remarks_eq_self
    cases (firsts Node.name (scope.seeds ++ nodesOf events)).find? _ <;> rfl
  | setting a =>
    show remarks (d.assign a).diagnostics = _
    rw [d.diagnostics_assign, remarks_append, h.get?_eq, Event.remarks]
    congr 1
    apply remarks_eq_self
    cases lastAssigned (settingsOf events) a.name <;> rfl
  | edge s =>
    show remarks (d.declareEdge scope s).diagnostics = _
    have himplied : d.lastNode.or scope.origin = impliedSource scope events := by
      rw [h.lastNode_eq]
      rfl
    rw [Event.remarks, ← himplied]
    unfold Draft.declareEdge
    cases (s.source.map Located.value).or (d.lastNode.or scope.origin) with
    | none =>
      show remarks (d.diagnostics ++ [(Fault.missingSource s.target.value).toDiagnostic s.span]) = _
      rw [remarks_append]
      rfl
    | some source =>
      let options := OptionReading.ofOptions s.options
      refine (Draft.remarks_admitEdge (d := { d with diagnostics := d.diagnostics ++ options.diagnostics })
        h.ascending _).trans ?_
      rw [remarks_append, remarks_eq_self (edgeFindings_options s.options)]
      rfl

/-! ### Any number of events -/

/-- The findings are the remarks on the events, and those of the fates of some edge statements. -/
structure Finds (scope : Scope) (events : List Event) (findings : List Diagnostic) : Prop where
  /-- The findings that are not about edges. -/
  remarks_eq : remarks findings = remarksBehind scope [] events
  /-- The findings about edges. -/
  edges_perm : ∃ names told, told.Sublist (attempts scope events) ∧
    (edgeFindings findings).Perm ((fates names [] told).flatMap Fate.findings)

theorem remarks_foldl (scope : Scope)
    (hreport : ∀ finding, .report finding ∈ events → finding.isEdgeFinding = false) :
    remarks (events.foldl (Draft.record scope) (Draft.fresh scope)).diagnostics =
      remarksBehind scope [] events := by
  induction events using List.reverseRecOn with
  | nil => rfl
  | append_singleton events event ih =>
    rw [List.foldl_append, remarksBehind_append]
    show remarks (Draft.record scope _ event).diagnostics = _
    rw [(records_foldl scope events).remarks_record, ih]
    · rw [List.nil_append, remarksBehind, remarksBehind, List.append_nil]
    · exact fun finding h => hreport finding (List.mem_append_left _ h)
    · rintro finding rfl
      exact hreport finding (List.mem_append_right _ List.mem_cons_self)

/-- **What is found** while events are recorded. -/
theorem finds_foldl (scope : Scope)
    (hreport : ∀ finding, .report finding ∈ events → finding.isEdgeFinding = false) :
    Finds scope events (events.foldl (Draft.record scope) (Draft.fresh scope)).diagnostics where
  remarks_eq := remarks_foldl scope hreport
  edges_perm := ⟨_, _, List.filter_sublist,
    .of_eq (accounts_foldl_reports scope hreport _ (List.Subset.refl _))⟩

/-- **What is found** about the whole unit. -/
theorem finds_resolve (scope : Scope)
    (hreport : ∀ finding, .report finding ∈ events → finding.isEdgeFinding = false) :
    Finds scope events
      (events.foldl (Draft.record scope) (Draft.fresh scope)).resolve.2.diagnostics where
  remarks_eq := by
    have hlater : ∀ (names : List String) (edges : List Edge),
        remarks ((fates names [] (edges.map .edge)).flatMap Fate.findings) = [] := by
      intro names edges
      refine remarks_eq_nil (List.filter_eq_self.2 fun finding hfinding => ?_)
      rcases code_findings_edges names edges hfinding with hcode | hcode <;>
        simp [Diagnostic.isEdgeFinding, hcode]
    rw [(resolves_resolve (records_foldl scope events).toQueues).diagnostics_eq, remarks_append,
      hlater, List.append_nil, remarks_foldl scope hreport]
  edges_perm := ⟨_, _, List.Sublist.refl _,
    (accounts_foldl_reports scope hreport).findings_resolve (records_foldl scope events).toQueues⟩

end

end CallGraph
