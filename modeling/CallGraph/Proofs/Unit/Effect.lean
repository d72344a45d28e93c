import CallGraph.Proofs.Unit.Fates
import CallGraph.Proofs.Unit.OptionKey

/-!
# The effect of one statement

What recording one statement does to a draft, said once for each operation.

* `Draft.declareNode_eq`, `Draft.assign_eq` — a node or a setting, and at worst a finding about it;
* `Draft.declareEdge_eq` — an edge statement is admitted as the edge that it declares, or reported;
* `Draft.admitEdge_cases`, `Draft.retry_cases` — an edge is deferred, misses an end, or enters the
  graph.
-/

namespace CallGraph

/-- Whether an edge with the same key is deferred. -/
def Draft.defers (d : Draft) (e : Edge) : Bool := d.deferred.any fun f => f.key = e.key

/-! ### Findings about edges -/

/-- Whether the finding is about an edge that is not stored. -/
def Diagnostic.isEdgeFinding (finding : Diagnostic) : Bool :=
  finding.code = some .unresolvedReference || finding.code = some .duplicateEdge ||
    finding.code = some .missingSource

/-- The findings about edges that are not stored. -/
def edgeFindings (findings : List Diagnostic) : List Diagnostic :=
  findings.filter Diagnostic.isEdgeFinding

theorem edgeFindings_append (findings others : List Diagnostic) :
    edgeFindings (findings ++ others) = edgeFindings findings ++ edgeFindings others :=
  List.filter_append _ _

theorem edgeFindings_findings (fate : Fate) : edgeFindings fate.findings = fate.findings := by
  rw [edgeFindings, List.filter_eq_self]
  intro finding hfinding
  obtain ⟨fault, hfault, rfl⟩ := List.mem_map.1 hfinding
  cases fate with
  | stored e => exact absurd hfault List.not_mem_nil
  | duplicate e first =>
    rw [List.mem_singleton.1 hfault]
    rfl
  | unresolved e missing =>
    obtain ⟨name, -, rfl⟩ := List.mem_map.1 hfault
    rfl
  | sourceless s =>
    rw [List.mem_singleton.1 hfault]
    rfl

namespace Draft

variable {d : Draft}

/-- A node is inserted and remembered; at worst there is a finding about the node. -/
theorem declareNode_eq (d : Draft) (s : NodeStatement) :
    ∃ findings, edgeFindings findings = [] ∧
      d.declareNode s =
        { d with
          graph := (d.graph.insertNode s.toNode).2
          diagnostics := d.diagnostics ++ findings
          lastNode := some s.name.value } := by
  refine ⟨_, ?_, rfl⟩
  show edgeFindings ((faultsOf (d.graph.insertNode s.toNode).1).map _) = []
  rcases d.graph.insertNode_cases s.toNode with ⟨-, hinsert⟩ | ⟨-, first, hinsert⟩ <;>
    rw [hinsert] <;> rfl

/-- A setting is assigned; at worst there is a finding about the setting. -/
theorem assign_eq (d : Draft) (a : Assignment) :
    ∃ findings, edgeFindings findings = [] ∧
      d.assign a =
        { d with
          graph := { d.graph with
            settings := d.graph.settings.insert a.key.value ⟨a.value.value, a.span⟩ }
          diagnostics := d.diagnostics ++ findings } := by
  unfold assign Graph.assign
  cases d.graph.settings.get? a.key.value with
  | none =>
    refine ⟨[], rfl, ?_⟩
    rw [List.append_nil]
  | some previous => exact ⟨[reassigned a previous.span], rfl, rfl⟩

end Draft

/-- The findings about options are not about edges. -/
theorem edgeFindings_options (options : List Assignment) :
    edgeFindings (OptionReading.ofOptions options).diagnostics = [] := by
  refine List.filter_eq_nil_iff.2 fun finding hfinding => ?_
  obtain ⟨option, -, rfl | ⟨expected, rfl⟩⟩ := OptionReading.mem_diagnostics hfinding
  · exact Bool.false_ne_true
  · exact Bool.false_ne_true

namespace Draft

variable {d : Draft}

/-- An edge statement is admitted as the edge that it declares, or reported if it has no source. -/
theorem declareEdge_eq (scope : Scope) (d : Draft) (s : EdgeStatement) :
    (s.attempt (d.lastNode.or scope.origin) = .sourceless s ∧
      d.declareEdge scope s = d.report ((Fault.missingSource s.target.value).toDiagnostic s.span)) ∨
    ∃ e findings, s.attempt (d.lastNode.or scope.origin) = .edge e ∧ edgeFindings findings = [] ∧
      d.declareEdge scope s = { d with diagnostics := d.diagnostics ++ findings }.admitEdge e := by
  unfold declareEdge EdgeStatement.attempt
  cases (s.source.map Located.value).or (d.lastNode.or scope.origin) with
  | none => exact Or.inl ⟨rfl, rfl⟩
  | some source => exact Or.inr ⟨_, _, rfl, edgeFindings_options s.options, rfl⟩

/-- The draft with other edges and more faults noted about a statement at the span. -/
def meet (d : Draft) (span : Span) (edges : List Edge) (faults : List Fault) : Draft :=
  { d with graph := { d.graph with edges } }.note span faults

/-- An edge whose ends are declared enters the graph. -/
theorem exists_enters (h : Ascending d.graph.edges) {e : Edge}
    (hends : e.undeclared d.graph.names = []) :
    ∃ edges answer, Enters d.graph.edges e edges (faultsOf answer) ∧
      d.graph.insertEdge e = (answer, { d.graph with edges }) := by
  by_cases hstored : ∃ f ∈ d.graph.edges, f.key = e.key
  · obtain ⟨f, hf, hkey⟩ := hstored
    exact ⟨_, .error _, .duplicate hf hkey, Graph.insertEdge_duplicate hends h hf hkey⟩
  · have hnew : ∀ f ∈ d.graph.edges, f.key ≠ e.key := fun f hf hkey => hstored ⟨f, hf, hkey⟩
    obtain ⟨edges, hinsert, hperm, hascending⟩ := Graph.insertEdge_new hends h hnew
    exact ⟨edges, .ok (), .new hnew hperm hascending, hinsert⟩

/-- **What becomes of an edge** that is admitted: it is deferred, or it enters the graph. -/
theorem admitEdge_cases (h : Ascending d.graph.edges) (e : Edge) :
    ((d.defers e = true ∨ e.undeclared d.graph.names ≠ []) ∧
      d.admitEdge e = { d with deferred := d.deferred ++ [e] }) ∨
    (d.defers e = false ∧ e.undeclared d.graph.names = [] ∧
      ∃ edges faults, Enters d.graph.edges e edges faults ∧
        d.admitEdge e = d.meet e.span edges faults) := by
  have hcondition : (d.deferred.any (fun f => f.key = e.key) ||
      !(d.graph.missingEnds e).isEmpty) = true ↔
      d.defers e = true ∨ e.undeclared d.graph.names ≠ [] := by
    rw [Bool.or_eq_true, Graph.missingEnds_eq, Bool.not_eq_true', List.isEmpty_eq_false_iff]
    rfl
  by_cases hdefer : d.defers e = true ∨ e.undeclared d.graph.names ≠ []
  · refine Or.inl ⟨hdefer, ?_⟩
    rw [admitEdge, if_pos (hcondition.2 hdefer)]
  · obtain ⟨hopen, hends⟩ := not_or.1 hdefer
    rw [Bool.not_eq_true] at hopen
    rw [not_not] at hends
    obtain ⟨edges, answer, henters, hinsert⟩ := d.exists_enters h hends
    refine Or.inr ⟨hopen, hends, edges, _, henters, ?_⟩
    rw [admitEdge, if_neg fun hif => hdefer (hcondition.1 hif), Draft.insertEdge, hinsert, meet]

/-- **What a retry does**: the ends are missing, or the edge enters the graph. -/
theorem retry_cases (h : Ascending d.graph.edges) (e : Edge) :
    (e.undeclared d.graph.names ≠ [] ∧
      d.retry e = ((e.undeclared d.graph.names).map .unresolvedReference,
        d.meet e.span d.graph.edges ((e.undeclared d.graph.names).map .unresolvedReference))) ∨
    (e.undeclared d.graph.names = [] ∧ ∃ edges faults, Enters d.graph.edges e edges faults ∧
      d.retry e = (faults, d.meet e.span edges faults)) := by
  unfold retry meet
  rw [Graph.missingEnds_eq]
  by_cases hends : e.undeclared d.graph.names = []
  · obtain ⟨edges, answer, henters, hinsert⟩ := d.exists_enters h hends
    refine Or.inr ⟨hends, edges, _, henters, ?_⟩
    rw [hends, hinsert]
  · obtain ⟨name, rest, hmissing⟩ := List.exists_cons_of_ne_nil hends
    refine Or.inl ⟨hends, ?_⟩
    rw [hmissing]

/-- Nodes, settings and the node declared last stay what they are. -/
theorem admitEdge_frame (h : Ascending d.graph.edges) (e : Edge) :
    (d.admitEdge e).graph.nodes = d.graph.nodes ∧
      (d.admitEdge e).graph.settings = d.graph.settings ∧
        (d.admitEdge e).lastNode = d.lastNode := by
  rcases d.admitEdge_cases h e with ⟨-, heq⟩ | ⟨-, -, edges, faults, -, heq⟩ <;>
    rw [heq] <;> exact ⟨rfl, rfl, rfl⟩

end Draft

end CallGraph
