import CallGraph.Proofs.Graph.Growth
import CallGraph.Proofs.Parser.Handover
import CallGraph.Proofs.Unit.Provenance

/-!
# Reading a unit

What is known of a unit once its text has been read, or refused.

* `Code.phase` — reading, building and each of the checks give rise to findings under codes of their
  own;
* `Draft.ofEvents` — the draft once everything is recorded, with its graph told by the events;
* `Draft.ofText_cases` — a text is read to its end or refused;
* `finds_ofText`, `phase_ofText` — in both cases the findings are those about the events, and none of
  them comes from a check.
-/

namespace CallGraph

/-! ### Phases -/

/-- Where in the making of a unit a finding comes up. -/
inductive Phase where
  /-- While its text is read. -/
  | reading
  /-- While its graph is built. -/
  | building
  /-- When the graph is searched for cycles. -/
  | cycles
  /-- When the settings are checked. -/
  | settings
  /-- When the nodes are checked. -/
  | nodes
  /-- When the payloads are linted. -/
  | payloads
deriving DecidableEq

/-- The phase that gives rise to findings under the code. -/
def Code.phase : Code → Phase
  | unterminatedText | unexpectedCharacter | invalidEscape | malformedNumber | unterminatedPayload
  | unexpectedToken | unexpectedEnd => .reading
  | unresolvedReference | duplicateDeclaration | duplicateEdge | invalidOption | unknownOption
  | reassignedSetting | missingSource => .building
  | cycle => .cycles
  | invalidResponse | invalidTiming => .settings
  | missingAddress | invalidAddress | unusedNode => .nodes
  | deepPayload => .payloads

/-- The phase that the finding comes from, unless it has no code. -/
def Diagnostic.phase? (d : Diagnostic) : Option Phase := d.code.map Code.phase

theorem phase_toDiagnostic (error : SyntaxError) : error.toDiagnostic.phase? = some .reading := by
  obtain ⟨token, reason⟩ := error
  show some (SyntaxError.code ⟨token, reason⟩).phase = some .reading
  cases reason with
  | unexpected expected =>
    unfold SyntaxError.code
    dsimp only
    split <;> rfl
  | lexical mistake => cases mistake <;> rfl
  | inconsistent what => rfl

theorem isEdgeFinding_eq_false {d : Diagnostic} (h : d.phase? ≠ some .building) :
    d.isEdgeFinding = false := by
  rw [Bool.eq_false_iff]
  intro hedge
  simp only [Diagnostic.isEdgeFinding, Bool.or_eq_true, decide_eq_true_eq] at hedge
  rcases hedge with (hcode | hcode) | hcode <;> exact h (by rw [Diagnostic.phase?, hcode]; rfl)

theorem Found.phase_eq {scope : Scope} {events : List Event} {event : Event} {d : Diagnostic}
    (h : Found scope events event d) (hstatement : event.isStatement = true) :
    d.phase? = some .building := by
  cases h with
  | report => cases hstatement
  | _ => rfl

/-! ### The whole unit -/

/-- An entry is found under its key. -/
theorem Dictionary.get?_of_mem {α : Type} {d : Dictionary α} {p : String × α}
    (hp : p ∈ d.entries) : d.get? p.1 = some p.2 := by
  obtain ⟨before, behind, hsplit⟩ := List.append_of_mem hp
  refine List.lookup_eq_some_iff.2 ⟨before, behind, hsplit, fun q hq => ?_⟩
  have h := d.nodup_keys
  rw [hsplit, List.map_append, List.map_cons, List.nodup_append] at h
  simp only [bne_iff_ne]
  exact (h.2.2 q.1 (List.mem_map_of_mem hq) p.1 List.mem_cons_self).symm

/-- What is found under a key is an entry. -/
theorem Dictionary.mem_of_get? {α : Type} {d : Dictionary α} {key : String} {v : α}
    (h : d.get? key = some v) : (key, v) ∈ d.entries := by
  obtain ⟨before, behind, hsplit, -⟩ := List.lookup_eq_some_iff.1 h
  rw [hsplit]
  exact List.mem_append_right _ List.mem_cons_self

/-- The draft once all events are recorded and the deferred edges retried. -/
def Draft.ofEvents (scope : Scope) (events : List Event) : Draft :=
  (events.foldl (Draft.record scope) (Draft.fresh scope)).resolve.2

section

variable {scope : Scope} {events : List Event} {e : Edge}

theorem nodes_ofEvents (scope : Scope) (events : List Event) :
    (Draft.ofEvents scope events).graph.nodes =
      firsts Node.name (scope.seeds ++ nodesOf events) := by
  have hrecords := records_foldl scope events
  exact (congrArg Graph.nodes (resolves_resolve hrecords.toQueues).graph_eq).trans
    hrecords.nodes_eq

theorem settings_ofEvents (scope : Scope) (events : List Event) :
    (Draft.ofEvents scope events).graph.settings =
      (events.foldl (Draft.record scope) (Draft.fresh scope)).graph.settings := by
  have hresolves := resolves_resolve (records_foldl scope events).toQueues
  exact (congrArg Graph.settings hresolves.graph_eq).trans rfl

/-- Every setting has the span of an assignment to it. -/
theorem exists_assignment {p : String × Located Value}
    (hp : p ∈ (Draft.ofEvents scope events).graph.settings.entries) :
    ∃ a ∈ settingsOf events, a.name = p.1 ∧ p.2.span = a.span := by
  have hassigned := Dictionary.get?_of_mem hp
  rw [settings_ofEvents, (records_foldl scope events).get?_eq] at hassigned
  obtain ⟨a, ha, hname, hv⟩ := mem_of_lastAssigned hassigned
  refine ⟨a, ha, hname, ?_⟩
  rw [hv]

theorem mem_edges_ofEvents (h : e ∈ (Draft.ofEvents scope events).graph.edges) :
    e ∈ edgesOf (attempts scope events) ∧ e.undeclared (namesOf scope events) = [] := by
  have hrecords := records_foldl scope events
  have hstored := hrecords.toQueues.edges_resolve.mem_iff.1 h
  rw [fates_names hrecords.toDeclares] at hstored
  obtain ⟨hfirst, hends⟩ := mem_stored.1 hstored
  exact ⟨(firstOf?_eq_some hfirst).1, hends⟩

/-- The edges of an incomplete draft are declared, and so are their ends. -/
theorem Records.mem_edges {d : Draft} (h : Records scope events d) (he : e ∈ d.graph.edges) :
    e ∈ edgesOf (attempts scope events) ∧ e.undeclared d.graph.names = [] := by
  have hstored := (h.edges_perm d.graph.names (List.Subset.refl _)).mem_iff.1 he
  obtain ⟨hfirst, hends⟩ := mem_stored.1 hstored
  exact ⟨(List.filter_sublist.filterMap _).subset (firstOf?_eq_some hfirst).1, hends⟩

/-- **The graph of an incomplete draft** is well-formed. -/
theorem Records.wellFormed {d : Draft} (h : Records scope events d) : d.graph.WellFormed where
  names_nodup := by
    rw [h.nodes_eq]
    exact nodup_map_firsts _ _
  edges_ascending := h.ascending
  ends_declared := by
    intro e he
    rw [Graph.contains_iff, Graph.contains_iff]
    exact Edge.undeclared_eq_nil.1 (h.mem_edges he).2

/-- **The graph of a unit** is well-formed. -/
theorem wellFormed_ofEvents (scope : Scope) (events : List Event) :
    (Draft.ofEvents scope events).graph.WellFormed where
  names_nodup := by
    rw [nodes_ofEvents]
    exact nodup_map_firsts _ _
  edges_ascending := (resolves_resolve (records_foldl scope events).toQueues).ascending
  ends_declared := by
    intro e he
    have hnames : ∀ name, name ∈ namesOf scope events →
        (Draft.ofEvents scope events).graph.contains name = true := by
      intro name hname
      rw [Graph.contains_iff, Graph.names, nodes_ofEvents, mem_map_firsts]
      exact hname
    obtain ⟨hsource, htarget⟩ := Edge.undeclared_eq_nil.1 (mem_edges_ofEvents he).2
    exact ⟨hnames _ hsource, hnames _ htarget⟩

end

/-! ### Texts -/

section

variable (budget : Nat) (scope : Scope) (text : String)

theorem Draft.ofText_of_ok (h : (parse budget scope.start text).result = .ok ()) :
    Draft.ofText budget scope text =
      (Draft.ofEvents scope (parse budget scope.start text).events, .ok ()) := by
  unfold Draft.ofText
  simp only [h]
  rfl

theorem Draft.ofText_of_error {error : SyntaxError}
    (h : (parse budget scope.start text).result = .error error) :
    Draft.ofText budget scope text =
      ((parse budget scope.start text).events.foldl (Draft.record scope) (Draft.fresh scope),
        .error error) := by
  unfold Draft.ofText
  simp only [h]

/-- **A text** is read to its end, or it is refused and the draft left as it was then. -/
theorem Draft.ofText_cases :
    let parsed := parse budget scope.start text
    (parsed.result = .ok () ∧
      Draft.ofText budget scope text = (Draft.ofEvents scope parsed.events, .ok ())) ∨
    ∃ error, parsed.result = .error error ∧
      Draft.ofText budget scope text =
        (parsed.events.foldl (Draft.record scope) (Draft.fresh scope), .error error) := by
  intro parsed
  cases hresult : parsed.result with
  | ok done => exact .inl ⟨rfl, Draft.ofText_of_ok budget scope text hresult⟩
  | error error => exact .inr ⟨error, rfl, Draft.ofText_of_error budget scope text hresult⟩

/-- The nodes are the first ones of their names, the seeds before the others. -/
theorem nodes_ofText : (Draft.ofText budget scope text).1.graph.nodes =
    firsts Node.name (scope.seeds ++ nodesOf (parse budget scope.start text).events) := by
  rcases Draft.ofText_cases budget scope text with ⟨-, hread⟩ | ⟨error, -, hread⟩ <;> rw [hread]
  · exact nodes_ofEvents _ _
  · exact (records_foldl _ _).nodes_eq

/-- The edges are declared by statements. -/
theorem mem_edges_ofText {e : Edge} (h : e ∈ (Draft.ofText budget scope text).1.graph.edges) :
    .edge e ∈ attempts scope (parse budget scope.start text).events := by
  rcases Draft.ofText_cases budget scope text with ⟨-, hread⟩ | ⟨error, -, hread⟩ <;> rw [hread] at h
  · exact mem_edgesOf.1 (mem_edges_ofEvents h).1
  · exact mem_edgesOf.1 ((records_foldl _ _).mem_edges h).1

/-- **The graph of a draft** is well-formed, whether the text is refused or not. -/
theorem wellFormed_ofText : (Draft.ofText budget scope text).1.graph.WellFormed := by
  rcases Draft.ofText_cases budget scope text with ⟨-, hread⟩ | ⟨error, -, hread⟩ <;> rw [hread]
  · exact wellFormed_ofEvents _ _
  · exact (records_foldl _ _).wellFormed

/-- A text that is read to its end gives the draft of all its events. -/
theorem Draft.eq_ofEvents {draft : Draft} (h : Draft.ofText budget scope text = (draft, .ok ())) :
    draft = Draft.ofEvents scope (parse budget scope.start text).events := by
  rcases Draft.ofText_cases budget scope text with ⟨-, hread⟩ | ⟨error, -, hread⟩ <;>
    rw [h] at hread
  · exact (Prod.mk.inj hread).1
  · cases (Prod.mk.inj hread).2

/-- A text that is refused is refused for the error of its parser. -/
theorem Draft.result_of_error {draft : Draft} {error : SyntaxError}
    (h : Draft.ofText budget scope text = (draft, .error error)) :
    (parse budget scope.start text).result = .error error := by
  rcases Draft.ofText_cases budget scope text with ⟨-, hread⟩ | ⟨other, hresult, hread⟩ <;>
    rw [h] at hread
  · cases (Prod.mk.inj hread).2
  · rw [hresult, Except.error.inj (Prod.mk.inj hread).2]

/-- What is reported while a text is read are errors at its tokens. -/
theorem exists_error_of_report {finding : Diagnostic} {origin : Location}
    (h : .report finding ∈ (parse budget origin text).events) :
    ∃ error : SyntaxError, error.token ∈ (Scanner.startingAt origin text).tokens.1 ∧
      finding = error.toDiagnostic := by
  obtain ⟨errors, hreports, htokens⟩ := (parse_handsOver budget origin text).reports
  have hmem : finding ∈ reportsOf (parse budget origin text).events :=
    List.mem_filterMap.2 ⟨_, h, rfl⟩
  rw [hreports] at hmem
  obtain ⟨error, herror, rfl⟩ := List.mem_map.1 hmem
  exact ⟨error, htokens.subset (List.mem_map_of_mem herror), rfl⟩

/-- **What is found** while a text is read, whether it is refused or not. -/
theorem finds_ofText :
    Finds scope (parse budget scope.start text).events
      (Draft.ofText budget scope text).1.diagnostics := by
  have hreport : ∀ finding, .report finding ∈ (parse budget scope.start text).events →
      finding.isEdgeFinding = false := by
    intro finding hfinding
    obtain ⟨error, -, rfl⟩ := exists_error_of_report budget text hfinding
    exact isEdgeFinding_eq_false (by rw [phase_toDiagnostic]; decide)
  rcases Draft.ofText_cases budget scope text with ⟨-, heq⟩ | ⟨error, -, heq⟩ <;> rw [heq]
  · exact finds_resolve scope hreport
  · exact finds_foldl scope hreport

/-- Nothing that is found while a text is read comes from a check. -/
theorem phase_ofText {d : Diagnostic} (h : d ∈ (Draft.ofText budget scope text).1.diagnostics) :
    d.phase? = some .reading ∨ d.phase? = some .building := by
  obtain ⟨event, hevent, hfound⟩ := (finds_ofText budget scope text).found h
  cases event with
  | report finding =>
    obtain ⟨error, -, rfl⟩ := exists_error_of_report budget text hevent
    cases hfound
    exact .inl (phase_toDiagnostic error)
  | _ => exact .inr (hfound.phase_eq rfl)

end

end CallGraph
