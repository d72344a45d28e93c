import Mathlib.Data.List.Forall2
import CallGraph.Proofs.Unit.Resolution

/-!
# The account of edge statements

Each edge statement of a unit has exactly one fate, and the fates are what the finished draft shows.

* `Fate.Holds` — the meaning of a fate: what the graph holds of its key, and what is reported;
* `fates_hold` — every fate has its meaning;
* `edge_statements_accounted` — **no edge statement is lost** or accounted for twice.
-/

namespace CallGraph

/-- The findings are one of the given code, and its labels mark the given spans. -/
def Singles (findings : List Diagnostic) (code : Code) (spans : List Span) : Prop :=
  ∃ finding, findings = [finding] ∧ finding.code = some code ∧ finding.labels.map Label.span = spans

/-- The meaning of a fate behind those `earlier`, where `names` are all names declared.

* The ends of a stored edge are declared, and it is the one that the graph holds of its key; nothing
  is reported.
* The ends of a duplicate are declared, and the edge that the graph holds of its key was declared
  earlier; a duplicate is reported at the edge, with a label at the one that is stored.
* Ends that are declared nowhere are reported at the edge, each once and the source before the target,
  and the graph holds no edge of its key.
* A statement without a source is reported as such. -/
def Fate.Holds (names : List String) (graph : Graph) (earlier : List Fate) : Fate → Prop
  | .stored e =>
    e.source ∈ names ∧ e.target ∈ names ∧
      e ∈ graph.edges ∧ (∀ f ∈ graph.edges, f.key = e.key → f = e) ∧ (Fate.stored e).findings = []
  | .duplicate e first =>
    e.source ∈ names ∧ e.target ∈ names ∧
      first ∈ graph.edges ∧ first.key = e.key ∧ .stored first ∈ earlier ∧
      Singles (Fate.duplicate e first).findings .duplicateEdge [e.span, first.span]
  | .unresolved e missing =>
    missing = e.undeclared names ∧ missing ≠ [] ∧ (∀ f ∈ graph.edges, f.key ≠ e.key) ∧
      (Fate.unresolved e missing).findings =
        missing.map fun name => (Fault.unresolvedReference name).toDiagnostic e.span
  | .sourceless s =>
    s.source = none ∧ Singles (Fate.sourceless s).findings .missingSource [s.span]

/-! ### One fate for each statement -/

section

variable {names : List String} {told : List Attempt} {graph : Graph} {e : Edge}

theorem span_attempt (s : EdgeStatement) (implied : Option String) :
    (s.attempt implied).span = s.span := by
  unfold EdgeStatement.attempt
  cases (s.source.map Located.value).or implied <;> rfl

/-- Each edge statement comes to one attempt. -/
theorem map_span_attempts (scope : Scope) (events : List Event) :
    (attempts scope events).map Attempt.span =
      (events.filterMap Event.edge?).map EdgeStatement.span := by
  induction events using List.reverseRecOn with
  | nil => rfl
  | append_singleton events event ih =>
    rw [attempts_concat, List.map_append, List.filterMap_append, List.map_append, ih]
    congr 1
    cases event with
    | edge s => exact congrArg (fun span => [span]) (span_attempt s _)
    | _ => rfl

/-- An edge statement that comes to nothing names no source. -/
theorem source_eq_none {scope : Scope} {events : List Event} {s : EdgeStatement}
    (h : .sourceless s ∈ attempts scope events) : s.source = none := by
  induction events using List.reverseRecOn with
  | nil => exact absurd h List.not_mem_nil
  | append_singleton events event ih =>
    rw [attempts_concat, List.mem_append] at h
    refine h.elim ih fun h => ?_
    cases event with
    | edge s' =>
      have hattempt := List.mem_singleton.1 h
      unfold EdgeStatement.attempt at hattempt
      cases hsource : s'.source with
      | some source =>
        rw [hsource] at hattempt
        exact Attempt.noConfusion hattempt
      | none =>
        cases himplied : impliedSource scope events with
        | some source =>
          rw [hsource, himplied] at hattempt
          exact Attempt.noConfusion hattempt
        | none =>
          rw [hsource, himplied] at hattempt
          rw [Attempt.sourceless.inj hattempt, hsource]
    | node s' => exact absurd h List.not_mem_nil
    | setting a => exact absurd h List.not_mem_nil
    | report finding => exact absurd h List.not_mem_nil

/-! ### The meaning of the fates -/

theorem mem_storedEdges {all : List Fate} : e ∈ storedEdges all ↔ .stored e ∈ all := by
  rw [storedEdges, List.mem_filterMap]
  constructor
  · rintro ⟨fate, hfate, hstored⟩
    cases fate with
    | stored f => exact Option.some.inj hstored ▸ hfate
    | duplicate f first => exact absurd hstored (Option.some_ne_none e).symm
    | unresolved f missing => exact absurd hstored (Option.some_ne_none e).symm
    | sourceless s => exact absurd hstored (Option.some_ne_none e).symm
  · exact fun h => ⟨.stored e, h, rfl⟩

/-- **Every fate has its meaning** in a graph that holds the edges stored. -/
theorem fates_hold (hgraph : ∀ e, e ∈ graph.edges ↔ .stored e ∈ fates names [] told)
    (hascending : Ascending graph.edges) (hsource : ∀ s, .sourceless s ∈ told → s.source = none)
    {earlier later : List Fate} {fate : Fate}
    (h : fates names [] told = earlier ++ fate :: later) : fate.Holds names graph earlier := by
  have hmem : fate ∈ fates names [] told := by
    rw [h]
    exact List.mem_append_right _ List.mem_cons_self
  obtain ⟨told₁, a, told₂, rfl, rfl, rfl⟩ := fates_split h
  rw [List.nil_append] at hmem ⊢
  cases a with
  | sourceless s =>
    exact ⟨hsource s (List.mem_append_right _ List.mem_cons_self), _, rfl, rfl, rfl⟩
  | edge e =>
    rcases fate_edge names (edgesOf told₁) e with ⟨hends, hfate⟩ | ⟨hends, first, hfirst, hfate⟩ |
      ⟨hends, hnone, hfate⟩ <;> rw [hfate] at hmem ⊢
    · refine ⟨rfl, hends, fun f hf hkey => ?_, List.map_map⟩
      -- An edge of this key that is stored would have the same missing ends.
      have hstored := mem_stored.1 (mem_storedEdges.2 ((hgraph f).1 hf))
      rw [Edge.undeclared_congr hkey] at hstored
      exact hends hstored.2
    · have hkey := (firstOf?_eq_some hfirst).2
      have hearlier : .stored first ∈ fates names [] told₁ := by
        refine mem_storedEdges.1 (mem_stored.2 ⟨?_, ?_⟩)
        · rw [firstOf?_congr hkey, hfirst]
        · rw [Edge.undeclared_congr hkey, hends]
      have hfirst_mem : first ∈ graph.edges := by
        rw [hgraph, h]
        exact List.mem_append_left _ hearlier
      obtain ⟨hsource_mem, htarget_mem⟩ := Edge.undeclared_eq_nil.1 hends
      exact ⟨hsource_mem, htarget_mem, hfirst_mem, hkey, hearlier, _, rfl, rfl, rfl⟩
    · have hmem_edges : e ∈ graph.edges := (hgraph e).2 hmem
      obtain ⟨hsource_mem, htarget_mem⟩ := Edge.undeclared_eq_nil.1 hends
      exact ⟨hsource_mem, htarget_mem, hmem_edges,
        fun f hf hkey => hascending.eq_of_key hmem_edges hf hkey, rfl⟩

/-! ### What the resolution reports -/

/-- The fates of edges are no reports of missing sources. -/
theorem code_findings_edges (names : List String) (edges : List Edge) {finding : Diagnostic}
    (h : finding ∈ (fates names [] (edges.map .edge)).flatMap Fate.findings) :
    finding.code = some .unresolvedReference ∨ finding.code = some .duplicateEdge := by
  obtain ⟨fate, hfate, hfinding⟩ := List.mem_flatMap.1 h
  have hattempt : fate.attempt ∈ edges.map .edge := by
    rw [← map_attempt_fates names [] (edges.map .edge)]
    exact List.mem_map_of_mem hfate
  obtain ⟨e, -, hedge⟩ := List.mem_map.1 hattempt
  obtain ⟨fault, hfault, rfl⟩ := List.mem_map.1 hfinding
  cases fate with
  | stored f => exact absurd hfault List.not_mem_nil
  | duplicate f first =>
    rw [List.mem_singleton.1 hfault]
    exact Or.inr rfl
  | unresolved f missing =>
    obtain ⟨name, -, rfl⟩ := List.mem_map.1 hfault
    exact Or.inl rfl
  | sourceless s => exact Attempt.noConfusion hedge

/-- Faults and findings go together. -/
theorem faults_findings (all : List Fate) :
    List.Forall₂ (fun fault finding => ∃ span, finding = fault.toDiagnostic span)
      (all.flatMap Fate.faults) (all.flatMap Fate.findings) := by
  induction all with
  | nil => exact .nil
  | cons fate all ih =>
    rw [List.flatMap_cons, List.flatMap_cons]
    refine List.rel_append ?_ ih
    rw [Fate.findings, List.forall₂_map_right_iff, List.forall₂_same]
    exact fun fault _ => ⟨fate.span, rfl⟩

/-- **No edge statement is lost** or accounted for twice, if what is recorded are statements only.

* Each edge statement has exactly one fate, and every fate has its meaning.
* The graph holds the edges stored, each of them once.
* What is found about edges while they are recorded are the findings of the fates of those that are
  tried at once, statement by statement and in the order of each fate: the source of an edge comes
  before its target (`Edge.undeclared`).
* What the resolution adds are the findings of the fates of the deferred edges, in the order of their
  declaration; the faults that it returns are those behind these findings, in the same order.
* There are no other findings about edges, and no edge is deferred any longer. -/
theorem edge_statements_accounted {scope : Scope} {events : List Event}
    (hreport : ∀ finding, Event.report finding ∉ events) :
    let draft := events.foldl (Draft.record scope) (Draft.fresh scope)
    let final := draft.resolve.2
    let all := fates (namesOf scope events) [] (attempts scope events)
    let tried := all.filter fun fate => draft.tries fate.attempt
    let retried := all.filter fun fate => !draft.tries fate.attempt
    all.map Fate.attempt = attempts scope events ∧
      (attempts scope events).map Attempt.span =
        (events.filterMap Event.edge?).map EdgeStatement.span ∧
      (∀ earlier fate later, all = earlier ++ fate :: later →
        fate.Holds (namesOf scope events) final.graph earlier) ∧
      (storedEdges all).Perm final.graph.edges ∧
      edgeFindings draft.diagnostics = tried.flatMap Fate.findings ∧
      retried.map Fate.attempt = draft.deferred.map .edge ∧
      final.diagnostics = draft.diagnostics ++ retried.flatMap Fate.findings ∧
      draft.resolve.1 = retried.flatMap Fate.faults ∧
      List.Forall₂ (fun fault finding => ∃ span, finding = fault.toDiagnostic span)
        draft.resolve.1 (retried.flatMap Fate.findings) ∧
      (∀ finding ∈ retried.flatMap Fate.findings,
        finding.code = some .unresolvedReference ∨ finding.code = some .duplicateEdge) ∧
      (edgeFindings final.diagnostics).Perm (all.flatMap Fate.findings) ∧
      final.deferred = [] := by
  intro draft final all tried retried
  have hrecords : Records scope events draft := records_foldl scope events
  have haccounts : Accounts (attempts scope events) draft := accounts_foldl scope hreport
  have hresolves : Resolves draft draft.deferred draft.resolve.1 final :=
    resolves_resolve hrecords.toQueues
  have hnames : ∀ told, fates draft.graph.names [] told = fates (namesOf scope events) [] told :=
    fates_names hrecords.toDeclares
  have hretried : fates (namesOf scope events) [] (draft.deferred.map .edge) = retried :=
    hrecords.toQueues.fates_deferred _
  have hall : fates draft.graph.names [] (attempts scope events) = all := hnames _
  have hedges : (storedEdges all).Perm final.graph.edges := by
    rw [← hall]
    exact hrecords.toQueues.edges_resolve.symm
  have hfaults : draft.resolve.1 = retried.flatMap Fate.faults := by
    rw [hresolves.faults_eq, hnames, hretried]
  refine ⟨map_attempt_fates _ [] _, map_span_attempts scope events, ?_, hedges, ?_, ?_, ?_, hfaults,
    ?_, ?_, ?_, hresolves.deferred_eq⟩
  · intro earlier fate later hsplit
    refine fates_hold (fun e => ?_) hresolves.ascending (fun s hs => source_eq_none hs) hsplit
    rw [← hedges.mem_iff, mem_storedEdges]
  · rw [haccounts draft.graph.names (List.Subset.refl _), hnames, fates_filter_tries]
  · rw [← hretried, map_attempt_fates]
  · rw [hresolves.diagnostics_eq, hnames, hretried]
  · rw [hfaults]
    exact faults_findings retried
  · rw [← hretried]
    exact fun finding hfinding => code_findings_edges _ _ hfinding
  · rw [← hall]
    exact haccounts.findings_resolve hrecords.toQueues

/-- A statement without a source, an edge with two ends that are never declared, an edge that waits
for its target and is declared once more, and an edge that misses its target only. -/
theorem edge_statements_accounted_deferred :
    let name := fun value : String => (⟨value, default⟩ : Located String)
    let edge := fun source target => Event.edge ⟨source, name target, [], none, default⟩
    let events := [edge none "b", .node ⟨name "a", [], default⟩, edge none "b",
      edge (some (name "x")) "y", edge (some (name "a")) "b", edge none "c",
      .node ⟨name "b", [], default⟩]
    let draft := events.foldl (Draft.record {}) (Draft.fresh {})
    let final := draft.resolve.2
    let all := fates (namesOf {} events) [] (attempts {} events)
    let retried := all.filter fun fate => !draft.tries fate.attempt
    (∀ finding, Event.report finding ∉ events) ∧
      draft.resolve.1 = [.unresolvedReference "x", .unresolvedReference "y",
        .duplicateEdge "a" "b" "call" default, .unresolvedReference "c"] ∧
      (edgeFindings final.diagnostics).map Diagnostic.code =
        [some .missingSource, some .unresolvedReference, some .unresolvedReference,
          some .duplicateEdge, some .unresolvedReference] ∧
      draft.resolve.1 = retried.flatMap Fate.faults ∧
      final.diagnostics = draft.diagnostics ++ retried.flatMap Fate.findings ∧
      (storedEdges all).Perm final.graph.edges ∧
      (edgeFindings final.diagnostics).Perm (all.flatMap Fate.findings) := by
  intro name edge events draft final all retried
  have hreport : ∀ finding, Event.report finding ∉ events := by
    intro finding hmem
    simp [events, edge] at hmem
  have hruns : draft.resolve.1 = [.unresolvedReference "x", .unresolvedReference "y",
        .duplicateEdge "a" "b" "call" default, .unresolvedReference "c"] ∧
      (edgeFindings final.diagnostics).map Diagnostic.code =
        [some .missingSource, some .unresolvedReference, some .unresolvedReference,
          some .duplicateEdge, some .unresolvedReference] := by decide +kernel
  -- From here on it does not matter which events these are.
  clear_value events
  obtain ⟨-, -, -, hedges, -, -, hadded, hfaults, -, -, hfindings, -⟩ :=
    @edge_statements_accounted {} events hreport
  exact ⟨hreport, hruns.1, hruns.2, hfaults, hadded, hedges, hfindings⟩

end

end CallGraph
