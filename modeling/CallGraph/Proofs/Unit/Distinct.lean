import Mathlib.Data.List.Nodup
import CallGraph.Proofs.Unit.Spans

/-!
# No finding twice

A draft lists no finding twice.

* `Laid.nodup_remarks` — remarks on different statements point to different places, and those on one
  statement to different options;
* `Laid.nodup_edgeFindings` — findings about edges that are not stored point to different statements,
  or they miss different ends;
* `Laid.pairwise_nodes`, `Laid.pairwise_settings`, `Laid.edges_apart` — what a graph holds lies apart;
* `nodup_ofText` — so **no finding of a draft is listed twice**, whether its text is refused or not.
-/

namespace CallGraph

section

variable {scope : Scope} {before before' events : List Event} {a b event : Event} {d : Diagnostic}
  {tokens word : List Token}

/-! ### Remarks -/

theorem span?_noted {option : Assignment} (h : d ∈ OptionReading.noted option) :
    d.span? = some option.span := by
  obtain rfl | ⟨expected, rfl⟩ := OptionReading.mem_noted h
  · rfl
  · rfl

theorem nodup_noted (option : Assignment) : (OptionReading.noted option).Nodup := by
  rcases OptionReading.noted_cases option with ⟨-, hnoted⟩ | ⟨-, ⟨-, hnoted⟩ | ⟨-, expected, hnoted⟩⟩ <;>
    rw [hnoted]
  · exact List.nodup_nil
  · exact List.nodup_singleton _
  · exact List.nodup_singleton _

theorem nodup_options {options : List Assignment} (h : Aligned word options) :
    (OptionReading.ofOptions options).diagnostics.Nodup := by
  rw [OptionReading.ofOptions_diagnostics]
  refine List.pairwise_flatMap.2 ⟨fun option _ => nodup_noted option, h.2.imp_of_mem ?_⟩
  intro option option' hoption hoption' hle d hd d' hd' heq
  -- The later option starts behind the earlier one.
  have hspan := span?_noted hd
  rw [heq, span?_noted hd'] at hspan
  have hlt := (h.1 option hoption).start_lt_stop
  rw [Option.some.inj hspan] at hle
  omega

theorem nodup_event (h : event.Anchored word) : (event.remarks scope before).Nodup := by
  cases event with
  | report finding => exact List.nodup_singleton _
  | node s =>
    rw [Event.remarks]
    cases (firsts Node.name (scope.seeds ++ nodesOf before)).find? _ with
    | none => exact List.nodup_nil
    | some first => exact List.nodup_singleton _
  | setting a =>
    rw [Event.remarks]
    cases lastAssigned (settingsOf before) a.name with
    | none => exact List.nodup_nil
    | some previous => exact List.nodup_singleton _
  | edge s =>
    rw [Event.remarks]
    split
    · exact nodup_options h.2.1
    · exact List.nodup_nil

/-- Statements in order have no remark in common. -/
theorem Event.Behind.not_mem_remarks (h : a.Behind b) (ha : a.isStatement = true)
    (hb : b.isStatement = true) (hd : d ∈ a.remarks scope before) : d ∉ b.remarks scope before' := by
  intro hd'
  obtain ⟨word, others, hword, hothers, hbehind⟩ := h
  obtain ⟨s, hs, hanchored⟩ :=
    (found_of_mem_remarks (List.Subset.refl _) hd).span?_anchored ha hword
  obtain ⟨t, ht, hanchored'⟩ :=
    (found_of_mem_remarks (List.Subset.refl _) hd').span?_anchored hb hothers
  obtain rfl : s = t := Option.some.inj (hs.symm.trans ht)
  have hle := hanchored.stop_le_start hanchored' hbehind
  have hlt := hanchored.start_lt_stop
  omega

/-- A relation holds along events if it holds along the statements, along the reports, and between
statements and reports. -/
theorem pairwise_events {R : Event → Event → Prop} (hstatements : (statementsOf events).Pairwise R)
    (hreports : (reportsOf events).Pairwise fun f f' => R (.report f) (.report f'))
    (hmixed : ∀ a ∈ events, a.isStatement = true → ∀ f, .report f ∈ events →
      R a (.report f) ∧ R (.report f) a) : events.Pairwise R := by
  induction events with
  | nil => exact .nil
  | cons event events ih =>
    have hmixed' : ∀ a ∈ events, a.isStatement = true → ∀ f, .report f ∈ events →
        R a (.report f) ∧ R (.report f) a := fun a ha hstatement f hf =>
      hmixed a (List.mem_cons_of_mem _ ha) hstatement f (List.mem_cons_of_mem _ hf)
    by_cases hstatement : event.isStatement = true
    · have hsplit : statementsOf (event :: events) = event :: statementsOf events :=
        List.filter_cons_of_pos hstatement
      have hkept : reportsOf (event :: events) = reportsOf events := by
        cases event with
        | report f => cases hstatement
        | _ => rfl
      rw [hsplit] at hstatements
      rw [hkept] at hreports
      refine List.pairwise_cons.2 ⟨fun other hother => ?_, ih hstatements.of_cons hreports hmixed'⟩
      by_cases hother' : other.isStatement = true
      · exact (List.pairwise_cons.1 hstatements).1 other (mem_statementsOf.2 ⟨hother, hother'⟩)
      · cases other with
        | report f =>
          exact (hmixed event List.mem_cons_self hstatement f (List.mem_cons_of_mem _ hother)).1
        | _ => exact absurd rfl hother'
    · cases event with
      | report f =>
        have hreports' : (f :: reportsOf events).Pairwise fun f f' => R (.report f) (.report f') :=
          hreports
        refine List.pairwise_cons.2
          ⟨fun other hother => ?_, ih hstatements hreports'.of_cons hmixed'⟩
        by_cases hother' : other.isStatement = true
        · exact (hmixed other (List.mem_cons_of_mem _ hother) hother' f List.mem_cons_self).2
        · cases other with
          | report f' =>
            exact (List.pairwise_cons.1 hreports').1 f' (mem_reportsOf.2 hother)
          | _ => exact absurd rfl hother'
      | _ => exact absurd rfl hstatement

/-- Remarks are listed once if those on each event are and no two events have one in common. -/
theorem nodup_remarksBehind (hevents : ∀ event ∈ events, event.Anchored tokens)
    (hdisjoint : events.Pairwise fun a b => ∀ before before' d, d ∈ a.remarks scope before →
      d ∉ b.remarks scope before') : (remarksBehind scope before events).Nodup := by
  induction events generalizing before with
  | nil => exact List.nodup_nil
  | cons event events ih =>
    obtain ⟨hfirst, hrest⟩ := List.pairwise_cons.1 hdisjoint
    have hcommon : ∀ (rest : List Event) (before' : List Event) (d : Diagnostic),
        (∀ other ∈ rest, other ∈ events) → d ∈ event.remarks scope before →
          d ∉ remarksBehind scope before' rest := by
      intro rest
      induction rest with
      | nil => exact fun _ _ _ _ => List.not_mem_nil
      | cons other rest ih =>
        intro before' d hsub hd hmem
        rcases List.mem_append.1 hmem with hother | hrest
        · exact hfirst other (hsub other List.mem_cons_self) before before' d hd hother
        · exact ih _ d (fun x hx => hsub x (List.mem_cons_of_mem _ hx)) hd hrest
    refine List.nodup_append.2 ⟨nodup_event (hevents event List.mem_cons_self),
      ih (fun other hother => hevents other (List.mem_cons_of_mem _ hother)) hrest, ?_⟩
    rintro d hd _ hd' rfl
    exact hcommon events _ d (fun _ h => h) hd hd'

/-! ### Findings about edges -/

theorem unresolved_injective {name name' : String} {s t : Span}
    (h : (Fault.unresolvedReference name).toDiagnostic s =
      (Fault.unresolvedReference name').toDiagnostic t) : name = name' := by
  have hmessage : "reference to undeclared node `" ++ name ++ "`" =
      "reference to undeclared node `" ++ name' ++ "`" := congrArg Diagnostic.message h
  have hchars := congrArg String.toList hmessage
  simp only [String.toList_append, List.append_assoc, List.append_cancel_left_eq,
    List.append_cancel_right_eq] at hchars
  exact String.toList_inj.1 hchars

theorem nodup_undeclared (e : Edge) (names : List String) : (e.undeclared names).Nodup := by
  refine List.Nodup.filter _ ?_
  unfold Edge.ends
  split
  · exact List.nodup_singleton _
  · rename_i hends
    simp [hends]

/-- The findings of one fate are distinct and point to its statement. -/
theorem nodup_findings (names : List String) (told : List Edge) (a : Attempt) :
    (a.fate names told).findings.Nodup ∧
      ∀ d ∈ (a.fate names told).findings, d.span? = some a.span := by
  cases a with
  | sourceless s =>
    refine ⟨List.nodup_singleton _, fun d hd => ?_⟩
    rw [List.mem_singleton.1 hd]
    rfl
  | edge e =>
    rcases fate_edge names told e with ⟨-, hfate⟩ | ⟨-, first, -, hfate⟩ | ⟨-, -, hfate⟩ <;>
      rw [hfate]
    · have hfindings : (Fate.unresolved e (e.undeclared names)).findings =
          (e.undeclared names).map fun name =>
            (Fault.unresolvedReference name).toDiagnostic e.span := List.map_map
      rw [hfindings]
      refine ⟨(nodup_undeclared e names).map fun _ _ => unresolved_injective, fun d hd => ?_⟩
      obtain ⟨name, -, rfl⟩ := List.mem_map.1 hd
      rfl
    · refine ⟨List.nodup_singleton _, fun d hd => ?_⟩
      rw [List.mem_singleton.1 hd]
      rfl
    · exact ⟨List.nodup_nil, fun d hd => absurd hd List.not_mem_nil⟩

theorem span?_fates {names : List String} {told : List Attempt} {earlier : List Edge}
    (h : d ∈ (fates names earlier told).flatMap Fate.findings) :
    ∃ a ∈ told, d.span? = some a.span := by
  induction told generalizing earlier with
  | nil => exact absurd h List.not_mem_nil
  | cons a told ih =>
    rw [fates, List.flatMap_cons, List.mem_append] at h
    rcases h with hfirst | hrest
    · exact ⟨a, List.mem_cons_self, (nodup_findings names earlier a).2 d hfirst⟩
    · obtain ⟨a', ha', hspan⟩ := ih hrest
      exact ⟨a', List.mem_cons_of_mem _ ha', hspan⟩

/-- Findings about edges are listed once if the statements lie one behind the other. -/
theorem nodup_fates {names : List String} {told : List Attempt} {earlier : List Edge}
    (hvisible : ∀ a ∈ told, a.span.start < a.span.stop)
    (horder : told.Pairwise fun a b => a.span.stop ≤ b.span.start) :
    ((fates names earlier told).flatMap Fate.findings).Nodup := by
  induction told generalizing earlier with
  | nil => exact List.nodup_nil
  | cons a told ih =>
    obtain ⟨hfirst, hrest⟩ := List.pairwise_cons.1 horder
    rw [fates, List.flatMap_cons]
    refine List.nodup_append.2 ⟨(nodup_findings names earlier a).1,
      ih (fun b hb => hvisible b (List.mem_cons_of_mem _ hb)) hrest, ?_⟩
    rintro d hd _ hd' rfl
    obtain ⟨b, hb, hspan⟩ := span?_fates hd'
    rw [(nodup_findings names earlier a).2 d hd] at hspan
    have hle := hfirst b hb
    have hlt := hvisible a List.mem_cons_self
    rw [← Option.some.inj hspan] at hle
    omega

end

/-! ### The events of a text -/

/-- Where spans lie one behind the other, two of them belong to the same element or lie apart. -/
theorem eq_or_apart {α : Type} {span : α → Span} {l : List α}
    (h : l.Pairwise fun a b => (span a).stop ≤ (span b).start) {a b : α} (ha : a ∈ l) (hb : b ∈ l) :
    a = b ∨ (span a).stop ≤ (span b).start ∨ (span b).stop ≤ (span a).start := by
  induction h with
  | nil => exact absurd ha List.not_mem_nil
  | cons hfirst _ ih =>
    rcases List.mem_cons.1 ha with rfl | hmem
    · rcases List.mem_cons.1 hb with rfl | hmem'
      · exact .inl rfl
      · exact .inr (.inl (hfirst b hmem'))
    · rcases List.mem_cons.1 hb with rfl | hmem'
      · exact .inr (.inr (hfirst a hmem))
      · exact ih hmem hmem'

section

variable {scope : Scope} {events : List Event} {tokens : List Token} {findings : List Diagnostic}

namespace Laid

theorem nodup_remarks (h : Laid tokens events) (hvisible : Visible tokens)
    (horder : InOrder tokens) : (remarksBehind scope [] events).Nodup := by
  refine nodup_remarksBehind h.anchored (pairwise_events ?_ ?_ ?_)
  · refine h.behind.imp_of_mem fun {a b} ha hb hbehind before before' d hd => ?_
    exact hbehind.not_mem_remarks (mem_statementsOf.1 ha).2 (mem_statementsOf.1 hb).2 hd
  · obtain ⟨errors, hreports, htokens⟩ := h.reports
    rw [hreports, List.pairwise_map]
    refine (List.pairwise_map.1 (horder.sublist htokens)).imp_of_mem ?_
    intro error error' herror herror' hle before before' d hd hd'
    have heq : error.toDiagnostic = error'.toDiagnostic :=
      (List.mem_singleton.1 hd).symm.trans (List.mem_singleton.1 hd')
    have hspan : error.token.span = error'.token.span :=
      Option.some.inj (congrArg Diagnostic.span? heq)
    have htoken := hvisible _ (htokens.subset (List.mem_map_of_mem herror))
    have hanchored : error.token.span.Anchored [error.token] :=
      Span.anchored_token List.mem_cons_self htoken
    have hlt := hanchored.start_lt_stop
    rw [← hspan] at hle
    omega
  · intro a ha hstatement f hf
    obtain ⟨error, -, rfl⟩ := h.exists_error hf
    have hphases : ∀ before d, d ∈ a.remarks scope before → d ≠ error.toDiagnostic := by
      rintro before _ hd rfl
      have hphase := (found_of_mem_remarks (List.Subset.refl _) hd).phase_eq hstatement
      rw [phase_toDiagnostic] at hphase
      cases hphase
    exact ⟨fun before _ d hd hd' => hphases before d hd (List.mem_singleton.1 hd'),
      fun _ before' d hd hd' => hphases before' d hd' (List.mem_singleton.1 hd)⟩

/-- What the statements of one kind say lies one behind the other. -/
theorem pairwise_filterMap (h : Laid tokens events) {α : Type} {read : Event → Option α}
    {span : α → Span} (hreport : ∀ finding, read (.report finding) = none)
    (hspan : ∀ event x word, read event = some x → event.Anchored word → (span x).Anchored word) :
    (events.filterMap read).Pairwise fun x y => (span x).stop ≤ (span y).start := by
  have hkept : events.filterMap read = (statementsOf events).filterMap read := by
    unfold statementsOf
    rw [List.filterMap_filter]
    refine List.filterMap_congr fun event _ => ?_
    cases event with
    | report finding => exact hreport finding
    | _ => rfl
  rw [hkept]
  refine h.behind.filterMap _ fun a b hbehind x hx y hy => ?_
  obtain ⟨word, others, hword, hothers, hle⟩ := hbehind
  exact (hspan a x word hx hword).stop_le_start (hspan b y others hy hothers) hle

/-- The edge statements lie one behind the other. -/
theorem pairwise_attempts (h : Laid tokens events) :
    (attempts scope events).Pairwise fun a b => a.span.stop ≤ b.span.start := by
  have hstatements : (events.filterMap Event.edge?).Pairwise fun s s' =>
      s.span.stop ≤ s'.span.start := by
    refine h.pairwise_filterMap (fun _ => rfl) fun event s word hs hword => ?_
    cases event with
    | edge t => exact Option.some.inj hs ▸ hword.1
    | _ => cases hs
  have hspans : ((events.filterMap Event.edge?).map EdgeStatement.span).Pairwise fun s t =>
      s.stop ≤ t.start := List.pairwise_map.2 hstatements
  rw [← map_span_attempts scope events] at hspans
  exact List.pairwise_map.1 hspans

theorem span_attempt_anchored (h : Laid tokens events) {a : Attempt}
    (ha : a ∈ attempts scope events) : a.span.Anchored tokens := by
  obtain ⟨s, implied, hs, rfl⟩ := exists_statement ha
  rw [span_attempt]
  exact (h.anchored _ hs).1

/-- **No finding** about the events of a text is listed twice. -/
theorem nodup_findings (h : Laid tokens events) (hvisible : Visible tokens) (horder : InOrder tokens)
    (hfinds : Finds scope events findings) : findings.Nodup := by
  have hremarks : (remarks findings).Nodup := by
    rw [hfinds.remarks_eq]
    exact h.nodup_remarks hvisible horder
  have hedges : (edgeFindings findings).Nodup := by
    obtain ⟨names, told, htold, hperm⟩ := hfinds.edges_perm
    refine hperm.nodup_iff.2 (nodup_fates (fun a ha => ?_) (h.pairwise_attempts.sublist htold))
    exact (h.span_attempt_anchored (htold.subset ha)).start_lt_stop
  refine (List.filter_append_perm Diagnostic.isEdgeFinding findings).nodup_iff.1 ?_
  refine List.nodup_append.2 ⟨hedges, hremarks, ?_⟩
  rintro d hd _ hd' rfl
  have hno := (List.mem_filter.1 hd').2
  rw [(List.mem_filter.1 hd).2] at hno
  cases hno

/-! ### The graph -/

/-- The nodes of a unit without seeds lie one behind the other. -/
theorem pairwise_nodes (h : Laid tokens events) (hseeds : scope.seeds = []) :
    (Draft.ofEvents scope events).graph.nodes.Pairwise fun n n' => n.span.stop ≤ n'.span.start := by
  rw [nodes_ofEvents, hseeds, List.nil_append]
  refine List.Pairwise.sublist (firsts_sublist _ _) ?_
  refine h.pairwise_filterMap (fun _ => rfl) fun event n word hn hword => ?_
  cases event with
  | node s => exact Option.some.inj hn ▸ hword
  | _ => cases hn

/-- No two settings have the same span. -/
theorem pairwise_settings (h : Laid tokens events) :
    (Draft.ofEvents scope events).graph.settings.entries.Pairwise fun p q => p.2.span ≠ q.2.span := by
  have hassigned : (settingsOf events).Pairwise fun a b => a.span.stop ≤ b.span.start := by
    refine h.pairwise_filterMap (fun _ => rfl) fun event a word ha hword => ?_
    cases event with
    | setting b => exact Option.some.inj ha ▸ hword
    | _ => cases ha
  have hkeys : (Draft.ofEvents scope events).graph.settings.entries.Pairwise fun p q => p.1 ≠ q.1 :=
    List.pairwise_map.1 (Draft.ofEvents scope events).graph.settings.nodup_keys
  refine hkeys.imp_of_mem fun {p q} hp hq hne hspan => ?_
  obtain ⟨a, ha, hname, hpa⟩ := exists_assignment hp
  obtain ⟨b, hb, hname', hqb⟩ := exists_assignment hq
  have hlt := (h.span_setting ha).start_lt_stop
  rw [hpa, hqb] at hspan
  rcases eq_or_apart hassigned ha hb with rfl | hle | hle
  · exact hne (hname.symm.trans hname')
  · rw [← hspan] at hle
    omega
  · rw [← hspan] at hle
    omega

/-- Two edges lie apart. -/
theorem edges_apart (h : Laid tokens events) {e f : Edge}
    (he : e ∈ (Draft.ofEvents scope events).graph.edges)
    (hf : f ∈ (Draft.ofEvents scope events).graph.edges) :
    e = f ∨ e.span.stop ≤ f.span.start ∨ f.span.stop ≤ e.span.start := by
  have hattempt := mem_edgesOf.1 (mem_edges_ofEvents he).1
  have hattempt' := mem_edgesOf.1 (mem_edges_ofEvents hf).1
  refine (eq_or_apart h.pairwise_attempts hattempt hattempt').imp_left fun heq => ?_
  exact Attempt.edge.inj heq

end Laid

end

/-- **No finding of a draft** is listed twice, whether its text is refused or not. -/
theorem nodup_ofText (budget : Nat) (scope : Scope) (text : String) :
    (Draft.ofText budget scope text).1.diagnostics.Nodup := by
  have hlayout := (Scanner.startingAt scope.start text).layout
  exact (laid_parse budget scope.start text).nodup_findings hlayout.visible hlayout.ordered
    (finds_ofText budget scope text)

end CallGraph
