import CallGraph.Proofs.Unit.Queue

/-!
# Recording statements

What a draft holds after some events have been recorded, told by the events as a whole.

* `Declares` — its nodes and settings are those that the events declare;
* `Records` — moreover its edges are stored and deferred as `Queues` has it;
* `Records.record`, `Accounts.record` — each is kept by one more event;
* `records_foldl`, `accounts_foldl_reports` — so they hold after any number of them.
-/

namespace CallGraph

/-! ### Nodes and settings -/

/-- The name that is assigned to. -/
def Assignment.name (a : Assignment) : String := a.key.value

/-- The value that was assigned to the name last. -/
def lastAssigned (assigned : List Assignment) (name : String) : Option (Located Value) :=
  (assigned.filter fun a => a.name = name).getLast?.map fun a => ⟨a.value.value, a.span⟩

/-- The draft holds the nodes and the settings that the events declare. -/
structure Declares (scope : Scope) (events : List Event) (d : Draft) : Prop where
  /-- The first node of each name, the seeds before the others. -/
  nodes_eq : d.graph.nodes = firsts Node.name (scope.seeds ++ nodesOf events)
  /-- The node declared last. -/
  lastNode_eq : d.lastNode = (nodesOf events).getLast?.map Node.name
  /-- The keys of the settings in order of their first assignment. -/
  keys_eq : d.graph.settings.keys =
    (firsts Assignment.name (settingsOf events)).map Assignment.name
  /-- The value of a setting is the one assigned last. -/
  get?_eq : ∀ name, d.graph.settings.get? name = lastAssigned (settingsOf events) name

theorem lastAssigned_concat (assigned : List Assignment) (a : Assignment) (name : String) :
    lastAssigned (assigned ++ [a]) name =
      if a.name = name then some ⟨a.value.value, a.span⟩ else lastAssigned assigned name := by
  unfold lastAssigned
  rw [List.filter_append, List.filter_singleton]
  by_cases h : a.name = name
  · rw [if_pos h, decide_eq_true h, cond_true, List.getLast?_concat]
    rfl
  · rw [if_neg h, decide_eq_false h, cond_false, List.append_nil]

/-- A fresh draft holds the seeds, the first one of each name. -/
theorem fresh_graph (scope : Scope) :
    (Draft.fresh scope).graph = { nodes := firsts Node.name scope.seeds } := by
  have hseeds : ∀ (seeds done : List Node),
      seeds.foldl (fun (g : Graph) n => (g.insertNode n).2)
          { nodes := firsts Node.name done } =
        { nodes := firsts Node.name (done ++ seeds) } := by
    intro seeds
    induction seeds with
    | nil =>
      intro done
      rw [List.append_nil]
      rfl
    | cons n seeds ih =>
      intro done
      rw [List.foldl_cons, Graph.nodes_insertNode n rfl, ih, List.append_assoc]
      rfl
  exact hseeds scope.seeds []

/-- The seeds are declared first. -/
theorem declares_fresh (scope : Scope) : Declares scope [] (Draft.fresh scope) where
  nodes_eq := by
    rw [fresh_graph]
    exact congrArg (firsts Node.name) (List.append_nil _).symm
  lastNode_eq := rfl
  keys_eq := by
    rw [fresh_graph]
    rfl
  get?_eq name := by
    rw [fresh_graph]
    rfl

/-! ### One more event -/

section

variable {scope : Scope} {events : List Event} {told : List Attempt} {d d' : Draft} {e f : Edge}

/-- What does not touch nodes and settings keeps them as they are. -/
theorem Declares.of_frame {event : Event} (h : Declares scope events d) (hnode : event.node? = none)
    (hsetting : event.setting? = none) (hnodes : d'.graph.nodes = d.graph.nodes)
    (hsettings : d'.graph.settings = d.graph.settings) (hlast : d'.lastNode = d.lastNode) :
    Declares scope (events ++ [event]) d' := by
  have hnodesOf : nodesOf (events ++ [event]) = nodesOf events := by
    rw [nodesOf_concat, hnode]
    exact List.append_nil _
  have hsettingsOf : settingsOf (events ++ [event]) = settingsOf events := by
    rw [settingsOf_concat, hsetting]
    exact List.append_nil _
  exact {
    nodes_eq := by rw [hnodes, hnodesOf, h.nodes_eq]
    lastNode_eq := by rw [hlast, hnodesOf, h.lastNode_eq]
    keys_eq := by rw [hsettings, hsettingsOf, h.keys_eq]
    get?_eq := fun name => by rw [hsettings, hsettingsOf, h.get?_eq] }

/-- One more node is declared. -/
theorem Declares.node (h : Declares scope events d) (s : NodeStatement) :
    Declares scope (events ++ [.node s]) (d.declareNode s) := by
  obtain ⟨findings, -, heq⟩ := d.declareNode_eq s
  have hnodes : nodesOf (events ++ [.node s]) = nodesOf events ++ [s.toNode] := nodesOf_concat _ _
  have hsettings : settingsOf (events ++ [.node s]) = settingsOf events :=
    (settingsOf_concat _ _).trans (List.append_nil _)
  rw [heq, Graph.nodes_insertNode s.toNode h.nodes_eq]
  exact {
    nodes_eq := by
      rw [hnodes, ← List.append_assoc]
    lastNode_eq := by
      rw [hnodes, List.getLast?_concat]
      rfl
    keys_eq := by
      rw [hsettings]
      exact h.keys_eq
    get?_eq := fun name => by
      rw [hsettings]
      exact h.get?_eq name }

/-- One more setting is assigned. -/
theorem Declares.setting (h : Declares scope events d) (a : Assignment) :
    Declares scope (events ++ [.setting a]) (d.assign a) := by
  obtain ⟨findings, -, heq⟩ := d.assign_eq a
  have hnodes : nodesOf (events ++ [.setting a]) = nodesOf events :=
    (nodesOf_concat _ _).trans (List.append_nil _)
  have hsettings : settingsOf (events ++ [.setting a]) = settingsOf events ++ [a] :=
    settingsOf_concat _ _
  rw [heq]
  exact {
    nodes_eq := by
      rw [hnodes]
      exact h.nodes_eq
    lastNode_eq := by
      rw [hnodes]
      exact h.lastNode_eq
    keys_eq := by
      show (d.graph.settings.insert a.name _).keys = _
      rw [hsettings, Dictionary.keys_insert, h.keys_eq, firsts_concat]
      by_cases hmem : a.name ∈ (settingsOf events).map Assignment.name
      · rw [if_pos hmem, if_pos (mem_map_firsts.2 hmem)]
      · rw [if_neg hmem, if_neg fun h => hmem (mem_map_firsts.1 h), List.map_append]
        rfl
    get?_eq := fun name => by
      show (d.graph.settings.insert a.name _).get? name = _
      rw [hsettings, lastAssigned_concat]
      by_cases hname : a.name = name
      · rw [if_pos hname, ← hname, Dictionary.get?_insert_self]
      · rw [if_neg hname, Dictionary.get?_insert_of_ne _ (Ne.symm hname), h.get?_eq] }

/-- The names that edges can refer to. -/
theorem Declares.mem_names (h : Declares scope events d) {name : String} :
    name ∈ d.graph.names ↔ name ∈ namesOf scope events := by
  rw [Graph.names, h.nodes_eq, mem_map_firsts]
  rfl

/-- Names are never lost. -/
theorem Declares.names_subset {event : Event} (h : Declares scope events d)
    (h' : Declares scope (events ++ [event]) d') : d.graph.names ⊆ d'.graph.names := by
  intro name hname
  rw [h.mem_names] at hname
  rw [h'.mem_names, namesOf, nodesOf_concat, ← List.append_assoc, List.map_append]
  exact List.mem_append_left _ hname

/-- An event that is no edge statement comes to nothing. -/
theorem attempts_concat_of_ne {event : Event} (h : ∀ s, event ≠ .edge s) :
    attempts scope (events ++ [event]) = attempts scope events := by
  rw [attempts_concat]
  cases event with
  | edge s => exact absurd rfl (h s)
  | _ => exact List.append_nil _

/-- An event that is no edge statement leaves the edges alone. -/
theorem Draft.record_frame (h : Declares scope events d) {event : Event}
    (hedge : ∀ s, event ≠ .edge s) :
    (d.record scope event).graph.edges = d.graph.edges ∧
      (d.record scope event).deferred = d.deferred ∧
      ∃ findings, (d.record scope event).diagnostics = d.diagnostics ++ findings ∧
        ((∀ finding, event = .report finding → finding.isEdgeFinding = false) →
          edgeFindings findings = []) := by
  cases event with
  | node s =>
    obtain ⟨findings, hfindings, heq⟩ := d.declareNode_eq s
    show (d.declareNode s).graph.edges = _ ∧ (d.declareNode s).deferred = _ ∧
      ∃ findings, (d.declareNode s).diagnostics = _ ∧ _
    rw [heq, Graph.nodes_insertNode s.toNode h.nodes_eq]
    exact ⟨rfl, rfl, findings, rfl, fun _ => hfindings⟩
  | edge s => exact absurd rfl (hedge s)
  | setting a =>
    obtain ⟨findings, hfindings, heq⟩ := d.assign_eq a
    show (d.assign a).graph.edges = _ ∧ (d.assign a).deferred = _ ∧
      ∃ findings, (d.assign a).diagnostics = _ ∧ _
    rw [heq]
    exact ⟨rfl, rfl, findings, rfl, fun _ => hfindings⟩
  | report finding =>
    refine ⟨rfl, rfl, [finding], rfl, fun hreport => ?_⟩
    rw [edgeFindings, List.filter_singleton, hreport finding rfl]
    rfl

/-- The draft holds what the events declare. -/
structure Records (scope : Scope) (events : List Event) (d : Draft) : Prop extends
  Declares scope events d, Queues (attempts scope events) d

theorem records_fresh (scope : Scope) : Records scope [] (Draft.fresh scope) where
  toDeclares := declares_fresh scope
  toQueues := by
    have hedges : (Draft.fresh scope).graph.edges = [] := by rw [fresh_graph]
    exact {
      ascending := hedges ▸ List.Pairwise.nil
      ends_declared := fun e he => absurd he List.not_mem_nil
      deferred_eq := rfl
      edges_perm := fun names _ => by
        rw [hedges]
        exact .refl [] }

/-- An edge statement is recorded as what it comes to. -/
theorem Records.attempt_eq (h : Records scope events d) (s : EdgeStatement) :
    attempts scope (events ++ [.edge s]) =
      attempts scope events ++ [s.attempt (d.lastNode.or scope.origin)] := by
  rw [attempts_concat, h.lastNode_eq]
  rfl

/-- **One more event** is recorded as part of the whole. -/
theorem Records.record (h : Records scope events d) (event : Event) :
    Records scope (events ++ [event]) (d.record scope event) := by
  by_cases hedge : ∃ s, event = .edge s
  · obtain ⟨s, rfl⟩ := hedge
    rw [show d.record scope (.edge s) = d.declareEdge scope s from rfl]
    rcases d.declareEdge_eq scope s with ⟨hattempt, heq⟩ | ⟨e, findings, hattempt, -, heq⟩
    · rw [heq]
      exact {
        toDeclares := h.toDeclares.of_frame rfl rfl rfl rfl rfl
        toQueues := by
          rw [h.attempt_eq, hattempt]
          exact h.toQueues.sourceless s rfl rfl }
    · rw [heq]
      have hqueues : Queues (attempts scope events)
          { d with diagnostics := d.diagnostics ++ findings } :=
        h.toQueues.of_frame rfl rfl (List.Subset.refl _)
      obtain ⟨hnodes, hsettings, hlast⟩ := Draft.admitEdge_frame hqueues.ascending e
      exact {
        toDeclares := h.toDeclares.of_frame rfl rfl hnodes hsettings hlast
        toQueues := by
          rw [h.attempt_eq, hattempt]
          exact hqueues.admitEdge e }
  · -- Any other statement may add names, but touches no edges.
    have hedge' : ∀ s, event ≠ .edge s := not_exists.1 hedge
    have hdeclares : Declares scope (events ++ [event]) (d.record scope event) := by
      cases event with
      | node s => exact h.toDeclares.node s
      | edge s => exact absurd rfl (hedge' s)
      | setting a => exact h.toDeclares.setting a
      | report finding => exact h.toDeclares.of_frame rfl rfl rfl rfl rfl
    have hattempts : attempts scope (events ++ [event]) = attempts scope events :=
      attempts_concat_of_ne hedge'
    obtain ⟨hedges, hdeferred, -⟩ := Draft.record_frame h.toDeclares hedge'
    exact {
      toDeclares := hdeclares
      toQueues := by
        rw [hattempts]
        exact h.toQueues.of_frame hedges hdeferred (h.toDeclares.names_subset hdeclares) }

/-- **One more event** adds what is found about it to the account. -/
theorem Accounts.record (h : Accounts (attempts scope events) d) (hrecords : Records scope events d)
    {event : Event} (hreport : ∀ finding, event = .report finding → finding.isEdgeFinding = false) :
    Accounts (attempts scope (events ++ [event])) (d.record scope event) := by
  by_cases hedge : ∃ s, event = .edge s
  · obtain ⟨s, rfl⟩ := hedge
    rw [show d.record scope (.edge s) = d.declareEdge scope s from rfl, hrecords.attempt_eq]
    rcases d.declareEdge_eq scope s with ⟨hattempt, heq⟩ | ⟨e, findings, hattempt, hfindings, heq⟩
    · rw [heq, hattempt]
      exact h.concat rfl (fun _ _ => rfl) rfl rfl rfl
    · rw [heq, hattempt]
      have haccounts : Accounts (attempts scope events)
          { d with diagnostics := d.diagnostics ++ findings } :=
        h.of_frame hfindings rfl rfl (List.Subset.refl _)
      exact haccounts.admitEdge (hrecords.toQueues.of_frame rfl rfl (List.Subset.refl _)) e
  · have hedge' : ∀ s, event ≠ .edge s := not_exists.1 hedge
    obtain ⟨-, hdeferred, findings, hdiagnostics, hfindings⟩ :=
      Draft.record_frame hrecords.toDeclares hedge'
    have hattempts : attempts scope (events ++ [event]) = attempts scope events :=
      attempts_concat_of_ne hedge'
    rw [hattempts]
    exact h.of_frame (hfindings hreport) hdiagnostics hdeferred
      (hrecords.toDeclares.names_subset (hrecords.record event).toDeclares)

/-! ### Any number of events -/

/-- **The whole is recorded.** -/
theorem records_foldl (scope : Scope) (events : List Event) :
    Records scope events (events.foldl (Draft.record scope) (Draft.fresh scope)) := by
  induction events using List.reverseRecOn with
  | nil => exact records_fresh scope
  | append_singleton events event ih =>
    rw [List.foldl_append]
    exact ih.record event

/-- **The whole is accounted for**, if no report is about an edge. -/
theorem accounts_foldl_reports (scope : Scope) {events : List Event}
    (h : ∀ finding, .report finding ∈ events → finding.isEdgeFinding = false) :
    Accounts (attempts scope events) (events.foldl (Draft.record scope) (Draft.fresh scope)) := by
  induction events using List.reverseRecOn with
  | nil => exact fun _ _ => rfl
  | append_singleton events event ih =>
    rw [List.foldl_append]
    have hevents : ∀ finding, .report finding ∈ events → finding.isEdgeFinding = false :=
      fun finding hmem => h finding (List.mem_append_left _ hmem)
    refine (ih hevents).record (records_foldl scope events) ?_
    rintro finding rfl
    exact h finding (List.mem_append_right _ List.mem_cons_self)

theorem accounts_foldl (scope : Scope) {events : List Event}
    (h : ∀ finding, Event.report finding ∉ events) :
    Accounts (attempts scope events) (events.foldl (Draft.record scope) (Draft.fresh scope)) :=
  accounts_foldl_reports scope fun finding hmem => absurd hmem (h finding)

end

end CallGraph
