import CallGraph.Proofs.Unit.Recording

/-!
# Resolving deferred edges

At the end of a unit the deferred edges are tried once more, in order.

* `Resolves` — what has been done behind some of the deferred edges;
* `Resolves.retry` — one more of them meets its fate;
* `resolves_resolve` — so all of them do;
* `resolved_graph` — **the graph** is the one that the statements declare, however they are
  interleaved.
-/

namespace CallGraph

/-- The deferred edges `done` have met their fates, starting from the draft `d`: the faults met, and
the draft behind them. -/
structure Resolves (d : Draft) (done : List Edge) (faults : List Fault) (d' : Draft) : Prop where
  /-- Nothing is deferred again. -/
  deferred_eq : d'.deferred = []
  /-- Only edges have been added to the graph. -/
  graph_eq : d'.graph = { d.graph with edges := d'.graph.edges }
  /-- The edges are in canonical order. -/
  ascending : Ascending d'.graph.edges
  /-- The edges have been stored according to their fates. -/
  edges_perm : d'.graph.edges.Perm
    (d.graph.edges ++ storedEdges (fates d.graph.names [] (done.map .edge)))
  /-- The faults are those of the fates. -/
  faults_eq : faults = (fates d.graph.names [] (done.map .edge)).flatMap Fate.faults
  /-- They have been noted. -/
  diagnostics_eq : d'.diagnostics =
    d.diagnostics ++ (fates d.graph.names [] (done.map .edge)).flatMap Fate.findings

section

variable {told : List Attempt} {d d' : Draft} {done : List Edge} {faults : List Fault} {e : Edge}

/-! ### The deferred edges one by one -/

/-- A deferred edge that has met its fate is done. -/
theorem Resolves.meet (h : Resolves d done faults d') {edges : List Edge} {more : List Fault}
    {fate : Fate} (hfate : (Attempt.edge e).fate d.graph.names (edgesOf (done.map .edge)) = fate)
    (hascending : Ascending edges) (hperm : edges.Perm (d'.graph.edges ++ fate.stored?.toList))
    (hmore : fate.faults = more) :
    Resolves d (done ++ [e]) (faults ++ more) (d'.meet e.span edges more) where
  deferred_eq := h.deferred_eq
  graph_eq := by
    show { d'.graph with edges } = { d.graph with edges }
    rw [h.graph_eq]
  ascending := hascending
  edges_perm := by
    show edges.Perm _
    rw [List.map_append, List.map_singleton, storedEdges_concat, hfate, ← List.append_assoc]
    exact hperm.trans (h.edges_perm.append_right _)
  faults_eq := by
    rw [List.map_append, List.map_singleton, fates_concat, List.flatMap_append, ← h.faults_eq, hfate,
      List.flatMap_singleton, hmore]
  diagnostics_eq := by
    have hspan : fate.span = e.span := by
      rw [← hfate, span_fate]
      rfl
    have hfindings : fate.findings = more.map fun fault => fault.toDiagnostic e.span := by
      rw [Fate.findings, hmore, hspan]
    show d'.diagnostics ++ _ = _
    rw [List.map_append, List.map_singleton, fates_concat, List.flatMap_append, hfate,
      List.flatMap_singleton, hfindings, h.diagnostics_eq, List.append_assoc]

/-- **One more deferred edge** meets its fate. -/
theorem Resolves.retry (h : Resolves d done faults d')
    (hfree : ∀ f ∈ d.graph.edges, f.key ≠ e.key) :
    Resolves d (done ++ [e]) (faults ++ (d'.retry e).1) (d'.retry e).2 := by
  have hnames : d'.graph.names = d.graph.names := by
    rw [h.graph_eq]
    rfl
  rcases d'.retry_cases h.ascending e with ⟨hends, heq⟩ | ⟨hends, edges, more, henters, heq⟩
  · rw [heq]
    rw [hnames] at hends ⊢
    have hfate : (Attempt.edge e).fate d.graph.names (edgesOf (done.map .edge)) =
        .unresolved e (e.undeclared d.graph.names) := by
      rw [Attempt.fate, if_pos hends]
    exact h.meet hfate h.ascending (.of_eq (List.append_nil d'.graph.edges).symm) rfl
  · rw [heq]
    rw [hnames] at hends
    -- Of this key there is what the deferred edges before it have left.
    have hstored : ∀ f : Edge, f.key = e.key → (f ∈ d'.graph.edges ↔
        f ∈ storedEdges (fates d.graph.names [] (done.map .edge))) := by
      intro f hkey
      rw [h.edges_perm.mem_iff, List.mem_append]
      exact or_iff_right fun hf => hfree f hf hkey
    obtain ⟨hfaults, hperm⟩ := henters.fate hends hstored
    exact h.meet rfl (henters.ascending h.ascending) hperm hfaults

/-- An edge that is stored at once has another key than those deferred. -/
theorem Queues.key_ne (h : Queues told d) (he : e ∈ d.deferred) {f : Edge}
    (hf : f ∈ d.graph.edges) : f.key ≠ e.key := by
  intro hkey
  have hdefers : d.defers f = true := List.any_eq_true.2 ⟨e, he, decide_eq_true hkey.symm⟩
  have hmem := (h.edges_perm d.graph.names (List.Subset.refl _)).mem_iff.1 hf
  have htried := (firstOf?_eq_some (mem_stored.1 hmem).1).1
  rw [edgesOf_filter_tries, List.mem_filter, hdefers] at htried
  exact Bool.false_ne_true htried.2

/-- The deferred edges are retried one after the other. -/
theorem Draft.resolve_eq (d : Draft) :
    d.resolve =
      d.deferred.foldl (fun r e => (r.1 ++ (r.2.retry e).1, (r.2.retry e).2))
        ([], { d with deferred := [] }) :=
  rfl

/-- **All deferred edges** meet their fates. -/
theorem resolves_resolve (h : Queues told d) :
    Resolves d d.deferred d.resolve.1 d.resolve.2 := by
  have hrest : ∀ (rest done : List Edge) (faults : List Fault) (d' : Draft),
      (∀ e ∈ rest, ∀ f ∈ d.graph.edges, f.key ≠ e.key) → Resolves d done faults d' →
      let r := rest.foldl (fun r e => (r.1 ++ (Draft.retry r.2 e).1, (Draft.retry r.2 e).2))
        (faults, d')
      Resolves d (done ++ rest) r.1 r.2 := by
    intro rest
    induction rest with
    | nil =>
      intro done faults d' _ hdone
      rw [List.append_nil]
      exact hdone
    | cons e rest ih =>
      intro done faults d' hfree hdone
      rw [List.append_cons]
      exact ih (done ++ [e]) _ _ (fun x hx => hfree x (List.mem_cons_of_mem _ hx))
        (hdone.retry (hfree e List.mem_cons_self))
  -- The retries start from the draft without its deferred edges.
  have hfresh : Resolves d [] [] { d with deferred := [] } := {
    deferred_eq := rfl
    graph_eq := rfl
    ascending := h.ascending
    edges_perm := .of_eq (List.append_nil d.graph.edges).symm
    faults_eq := rfl
    diagnostics_eq := (List.append_nil d.diagnostics).symm }
  rw [d.resolve_eq]
  exact hrest d.deferred [] [] _ (fun e he f hf => h.key_ne he hf) hfresh

/-! ### The whole unit -/

/-- The fates of all attempts are those of the attempts tried at once and of the deferred edges. -/
theorem Queues.fates_perm (h : Queues told d) (names : List String) :
    (fates names [] told).Perm
      (fates names [] (told.filter d.tries) ++ fates names [] (d.deferred.map .edge)) := by
  rw [fates_filter_tries, h.fates_deferred]
  exact (List.filter_append_perm (fun fate => d.tries fate.attempt) (fates names [] told)).symm

/-- In the end all edges are stored according to their fates. -/
theorem Queues.edges_resolve (h : Queues told d) :
    d.resolve.2.graph.edges.Perm (storedEdges (fates d.graph.names [] told)) := by
  have hnow := h.edges_perm d.graph.names (List.Subset.refl _)
  have hlater := (resolves_resolve h).edges_perm
  have hall := (h.fates_perm d.graph.names).filterMap Fate.stored?
  rw [List.filterMap_append] at hall
  exact hlater.trans ((hnow.append_right _).trans hall.symm)

/-- In the end all findings about edges are those of their fates. -/
theorem Accounts.findings_resolve (h : Accounts told d) (hqueues : Queues told d) :
    (edgeFindings d.resolve.2.diagnostics).Perm
      ((fates d.graph.names [] told).flatMap Fate.findings) := by
  have hall := (hqueues.fates_perm d.graph.names).flatMap_right Fate.findings
  have hlater : ∀ fates : List Fate,
      edgeFindings (fates.flatMap Fate.findings) = fates.flatMap Fate.findings := by
    intro fates
    induction fates with
    | nil => rfl
    | cons fate fates ih =>
      rw [List.flatMap_cons, edgeFindings_append, edgeFindings_findings, ih]
  rw [(resolves_resolve hqueues).diagnostics_eq, edgeFindings_append, hlater,
    h d.graph.names (List.Subset.refl _), ← List.flatMap_append]
  exact hall.symm

end

/-- The names that edges can refer to do not change. -/
theorem fates_names {scope : Scope} {events : List Event} {d : Draft}
    (h : Declares scope events d) (told : List Attempt) :
    fates d.graph.names [] told = fates (namesOf scope events) [] told :=
  fates_congr_names (fun _ => h.mem_names) [] told

/-- **The graph of a unit**, however its statements are interleaved.

* The nodes are the seeds and the nodes declared, the first one of each name, in order.
* The edges are the first ones of their keys among all edges declared, if both ends are declared
  anywhere; they are in canonical order, each key once.
* An edge that names no source starts at the node declared last before it, even if that one is not
  kept, or else at the origin; without either it is no edge at all (`attempts`).
* The settings are in order of their first assignment, each with the value assigned last. -/
theorem resolved_graph (scope : Scope) (events : List Event) :
    let graph := (events.foldl (Draft.record scope) (Draft.fresh scope)).resolve.2.graph
    graph.nodes = firsts Node.name (scope.seeds ++ nodesOf events) ∧
      (∀ e, e ∈ graph.edges ↔ firstOf? (edgesOf (attempts scope events)) e = some e ∧
        e.source ∈ namesOf scope events ∧ e.target ∈ namesOf scope events) ∧
      Ascending graph.edges ∧
      graph.settings.keys = (firsts Assignment.name (settingsOf events)).map Assignment.name ∧
      ∀ name, graph.settings.get? name = lastAssigned (settingsOf events) name := by
  intro graph
  have hrecords := records_foldl scope events
  have hresolves := resolves_resolve hrecords.toQueues
  have hnodes : graph.nodes = _ := congrArg Graph.nodes hresolves.graph_eq
  have hsettings : graph.settings = _ := congrArg Graph.settings hresolves.graph_eq
  refine ⟨?_, ?_, hresolves.ascending, ?_, ?_⟩
  · rw [hnodes]
    exact hrecords.nodes_eq
  · intro e
    rw [hrecords.toQueues.edges_resolve.mem_iff, fates_names hrecords.toDeclares, mem_stored,
      Edge.undeclared_eq_nil]
  · rw [hsettings]
    exact hrecords.keys_eq
  · intro name
    rw [hsettings]
    exact hrecords.get?_eq name

end CallGraph
