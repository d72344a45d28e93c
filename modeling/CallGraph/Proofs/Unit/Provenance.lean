import CallGraph.Proofs.Unit.Findings

/-!
# Where findings come from

Every finding of a draft is found on account of one event.

* `Found` — what can be found on account of an event;
* `exists_details`, `exists_edge_statement` — an edge has the span, the details and the payload of a statement;
* `Finds.found` — **every finding** is found on account of an event.
-/

namespace CallGraph

/-! ### Single findings -/

/-- What can be found on account of an event among the events of a unit. -/
inductive Found (scope : Scope) (events : List Event) : Event → Diagnostic → Prop where
  | report {finding : Diagnostic} : Found scope events (.report finding) finding
  | node {s : NodeStatement} {first : Node} : first ∈ scope.seeds ++ nodesOf events →
    Found scope events (.node s)
      ((Fault.duplicateDeclaration s.name.value first.span).toDiagnostic s.span)
  | setting {a previous : Assignment} : previous ∈ settingsOf events →
    Found scope events (.setting a) (Draft.reassigned a previous.span)
  | unknown {s : EdgeStatement} {option : Assignment} : option ∈ s.options →
    Found scope events (.edge s) (OptionReading.unknown option)
  | invalid {s : EdgeStatement} {option : Assignment} {expected : String} : option ∈ s.options →
    Found scope events (.edge s) (OptionReading.invalid option expected)
  | unresolved {s : EdgeStatement} {name : String} :
    Found scope events (.edge s) ((Fault.unresolvedReference name).toDiagnostic s.span)
  | duplicate {s other : EdgeStatement} {source target kind : String} : .edge other ∈ events →
    Found scope events (.edge s)
      ((Fault.duplicateEdge source target kind other.span).toDiagnostic s.span)
  | sourceless {s : EdgeStatement} {target : String} :
    Found scope events (.edge s) ((Fault.missingSource target).toDiagnostic s.span)

section

variable {scope : Scope} {events before : List Event} {finding : Diagnostic}

theorem mem_of_lastAssigned {assigned : List Assignment} {name : String} {v : Located Value}
    (h : lastAssigned assigned name = some v) :
    ∃ a ∈ assigned, a.name = name ∧ v = ⟨a.value.value, a.span⟩ := by
  obtain ⟨a, ha, rfl⟩ := Option.map_eq_some_iff.1 h
  obtain ⟨hmem, hname⟩ := List.mem_filter.1 (List.mem_of_getLast? ha)
  exact ⟨a, hmem, of_decide_eq_true hname, rfl⟩

/-- What is remarked on an event is found on its account. -/
theorem found_of_mem_remarks {event : Event} (hbefore : before ⊆ events)
    (h : finding ∈ event.remarks scope before) : Found scope events event finding := by
  cases event with
  | report other => exact List.mem_singleton.1 h ▸ .report
  | node s =>
    obtain ⟨first, hfirst, rfl⟩ := List.mem_map.1 h
    have hmem := List.mem_of_find?_eq_some (Option.mem_toList.1 hfirst)
    refine .node (List.mem_append.2 ?_)
    refine (List.mem_append.1 ((firsts_sublist _ _).subset hmem)).imp_right fun hmem => ?_
    obtain ⟨event, hevent, hnode⟩ := List.mem_filterMap.1 hmem
    exact List.mem_filterMap.2 ⟨event, hbefore hevent, hnode⟩
  | setting a =>
    obtain ⟨v, hv, rfl⟩ := List.mem_map.1 h
    obtain ⟨previous, hmem, -, rfl⟩ := mem_of_lastAssigned (Option.mem_toList.1 hv)
    obtain ⟨event, hevent, hsetting⟩ := List.mem_filterMap.1 hmem
    exact .setting (List.mem_filterMap.2 ⟨event, hbefore hevent, hsetting⟩)
  | edge s =>
    rw [Event.remarks] at h
    split at h
    · obtain ⟨option, hoption, rfl | ⟨expected, rfl⟩⟩ := OptionReading.mem_diagnostics h
      · exact .unknown hoption
      · exact .invalid hoption
    · exact absurd h List.not_mem_nil

theorem exists_of_mem_remarksBehind {rest : List Event} (hbefore : before ++ rest ⊆ events)
    (h : finding ∈ remarksBehind scope before rest) :
    ∃ event ∈ rest, Found scope events event finding := by
  induction rest generalizing before with
  | nil => exact absurd h List.not_mem_nil
  | cons event rest ih =>
    rcases List.mem_append.1 h with hevent | hrest
    · have hsub : before ⊆ events := fun x hx => hbefore (List.mem_append_left _ hx)
      exact ⟨event, List.mem_cons_self, found_of_mem_remarks hsub hevent⟩
    · rw [List.append_cons] at hbefore
      obtain ⟨other, hother, hfound⟩ := ih hbefore hrest
      exact ⟨other, List.mem_cons_of_mem _ hother, hfound⟩

/-- An attempt comes from an edge statement. -/
theorem exists_statement {a : Attempt} (h : a ∈ attempts scope events) :
    ∃ s implied, .edge s ∈ events ∧ a = s.attempt implied := by
  induction events using List.reverseRecOn with
  | nil => exact absurd h List.not_mem_nil
  | append_singleton events event ih =>
    rw [attempts_concat, List.mem_append] at h
    rcases h with hearlier | hlast
    · obtain ⟨s, implied, hs, ha⟩ := ih hearlier
      exact ⟨s, implied, List.mem_append_left _ hs, ha⟩
    · cases event with
      | edge s =>
        exact ⟨s, _, List.mem_append_right _ List.mem_cons_self, List.mem_singleton.1 hlast⟩
      | _ => exact absurd hlast List.not_mem_nil

/-- The edge that a statement declares. -/
theorem EdgeStatement.of_attempt {s : EdgeStatement} {implied : Option String} {e : Edge}
    (h : s.attempt implied = .edge e) :
    ∃ source, (s.source.map Located.value).or implied = some source ∧
      e = ⟨source, s.target.value, s.details, s.span⟩ := by
  unfold EdgeStatement.attempt at h
  cases hsource : (s.source.map Located.value).or implied with
  | none =>
    rw [hsource] at h
    exact Attempt.noConfusion h
  | some source =>
    rw [hsource] at h
    exact ⟨source, rfl, (Attempt.edge.inj h).symm⟩

theorem EdgeStatement.details_payload (s : EdgeStatement) : s.details.payload = s.payload := by
  unfold EdgeStatement.details
  cases s.payload with
  | none => exact OptionReading.ofOptions_payload s.options
  | some sent => rfl

/-- An edge has the span and the details of a statement. -/
theorem exists_details {e : Edge} (h : .edge e ∈ attempts scope events) :
    ∃ s : EdgeStatement, .edge s ∈ events ∧ e.span = s.span ∧ e.details = s.details := by
  obtain ⟨s, implied, hs, ha⟩ := exists_statement h
  obtain ⟨source, -, rfl⟩ := EdgeStatement.of_attempt ha.symm
  exact ⟨s, hs, rfl, rfl⟩

/-- An edge has the span and the payload of a statement. -/
theorem exists_edge_statement {e : Edge} (h : .edge e ∈ attempts scope events) :
    ∃ s : EdgeStatement, .edge s ∈ events ∧ e.span = s.span ∧ e.details.payload = s.payload := by
  obtain ⟨s, hs, hspan, hdetails⟩ := exists_details h
  exact ⟨s, hs, hspan, hdetails ▸ s.details_payload⟩

theorem mem_edgesOf {told : List Attempt} {e : Edge} : e ∈ edgesOf told ↔ .edge e ∈ told := by
  rw [edgesOf, List.mem_filterMap]
  constructor
  · rintro ⟨a, ha, hedge⟩
    cases a with
    | edge f => exact Option.some.inj hedge ▸ ha
    | sourceless s => cases hedge
  · exact fun h => ⟨.edge e, h, rfl⟩

/-- What is found about an edge statement is found on its account. -/
theorem found_of_mem_fates {names : List String} {told : List Attempt}
    (htold : told ⊆ attempts scope events)
    (h : finding ∈ (fates names [] told).flatMap Fate.findings) :
    ∃ s, .edge s ∈ events ∧ Found scope events (.edge s) finding := by
  obtain ⟨fate, hfate, hfinding⟩ := List.mem_flatMap.1 h
  obtain ⟨earlier, later, hsplit⟩ := List.append_of_mem hfate
  obtain ⟨told₁, a, told₂, rfl, -, rfl⟩ := fates_split hsplit
  have ha : a ∈ attempts scope events :=
    htold (List.mem_append_right _ List.mem_cons_self)
  cases a with
  | sourceless s =>
    obtain ⟨s', implied, hs', hattempt⟩ := exists_statement ha
    have hspan := congrArg Attempt.span hattempt
    rw [span_attempt] at hspan
    refine ⟨s', hs', ?_⟩
    rw [List.mem_singleton.1 hfinding]
    show Found scope events (.edge s') ((Fault.missingSource s.target.value).toDiagnostic s.span)
    rw [show s.span = s'.span from hspan]
    exact .sourceless
  | edge e =>
    obtain ⟨s, hs, hspan, -⟩ := exists_edge_statement ha
    refine ⟨s, hs, ?_⟩
    rw [List.nil_append] at hfinding
    rcases fate_edge names (edgesOf told₁) e with ⟨-, hfate⟩ | ⟨-, first, hfirst, hfate⟩ |
      ⟨-, -, hfate⟩ <;> rw [hfate] at hfinding
    · obtain ⟨fault, hfault, rfl⟩ := List.mem_map.1 hfinding
      obtain ⟨name, -, rfl⟩ := List.mem_map.1 hfault
      show Found scope events (.edge s) ((Fault.unresolvedReference name).toDiagnostic e.span)
      rw [hspan]
      exact .unresolved
    · have hmem := mem_edgesOf.1 (firstOf?_eq_some hfirst).1
      obtain ⟨other, hother, hspan', -⟩ := exists_edge_statement
        (htold (List.mem_append_left _ hmem))
      rw [List.mem_singleton.1 hfinding]
      show Found scope events (.edge s)
        ((Fault.duplicateEdge e.source e.target e.kind first.span).toDiagnostic e.span)
      rw [hspan, hspan']
      exact .duplicate hother
    · exact absurd hfinding List.not_mem_nil

/-- **Every finding** of a draft is found on account of an event. -/
theorem Finds.found {findings : List Diagnostic} (h : Finds scope events findings)
    (hmem : finding ∈ findings) : ∃ event ∈ events, Found scope events event finding := by
  by_cases hedge : finding.isEdgeFinding = true
  · obtain ⟨names, told, htold, hperm⟩ := h.edges_perm
    have hfates := hperm.mem_iff.1 (List.mem_filter.2 ⟨hmem, hedge⟩)
    obtain ⟨s, hs, hfound⟩ := found_of_mem_fates htold.subset hfates
    exact ⟨_, hs, hfound⟩
  · have hremark : finding ∈ remarks findings := List.mem_filter.2 ⟨hmem, by simpa using hedge⟩
    rw [h.remarks_eq] at hremark
    exact exists_of_mem_remarksBehind (List.Subset.refl _) hremark

end

end CallGraph
