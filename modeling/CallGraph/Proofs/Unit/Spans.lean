import CallGraph.Proofs.Grammar.Anchor
import CallGraph.Proofs.Token.Layout
import CallGraph.Proofs.Unit.Reading

/-!
# Where findings point

The statements of a text have words of their own, one behind the other, and whatever is found about a
statement points into its word.

* `Laid` — the events of a text, laid over its tokens, and `laid_parse` — those of every text are;
* `Laid.span?_found` — the position of a finding is that of tokens;
* `Laid.labels_found` — so are the spans of all its labels, except for those of seeds;
* `Laid.laidOver` — the spans of the graph are those of tokens too, and payloads stand in tokens of
  their edges;
* `Layout.piece` — a payload is a piece of the text around it.
-/

namespace CallGraph

/-- The second statement is made of tokens behind those of the first. -/
def Event.Behind (a b : Event) : Prop :=
  ∃ word others, a.Anchored word ∧ b.Anchored others ∧
    ∀ x ∈ word, ∀ y ∈ others, x.span.stop ≤ y.span.start

/-- The events are laid over the tokens. -/
structure Laid (tokens : List Token) (events : List Event) : Prop where
  /-- The spans of the statements are anchored in the tokens. -/
  anchored : ∀ event ∈ events, event.Anchored tokens
  /-- The statements are made of tokens of their own, in order. -/
  behind : (statementsOf events).Pairwise Event.Behind
  /-- The reports are about tokens. -/
  reports : ReportsAt tokens (reportsOf events)

theorem mem_statementsOf {events : List Event} {event : Event} :
    event ∈ statementsOf events ↔ event ∈ events ∧ event.isStatement = true := by
  rw [statementsOf, List.mem_filter]

theorem mem_reportsOf {events : List Event} {finding : Diagnostic} :
    finding ∈ reportsOf events ↔ .report finding ∈ events := by
  rw [reportsOf, List.mem_filterMap]
  constructor
  · rintro ⟨event, hevent, hreport⟩
    cases event with
    | report other => exact Option.some.inj hreport ▸ hevent
    | _ => cases hreport
  · exact fun h => ⟨_, h, rfl⟩

/-- What a statement says is anchored in its word. -/
theorem Derivation.anchored_events (d : Derivation (.nonterminal .statement))
    (hvisible : Visible d.word) (horder : InOrder d.word) :
    ∀ event ∈ d.events, event.Anchored d.word := by
  have hanchors : ∀ event, d.content = some event → event.Anchored d.word :=
    d.anchors hvisible horder
  exact fun event hevent => hanchors event (Option.mem_toList.1 hevent)

/-- **What is handed over** is laid over the tokens. -/
theorem HandsOver.laid {m : Machine} {tokens : List Token} {last : Token} {parsed : Parse}
    (h : HandsOver m [] tokens last parsed) (hvisible : Visible tokens) (horder : InOrder tokens) :
    Laid tokens parsed.events := by
  obtain ⟨ds, hds, hwords⟩ := h.statements
  rw [List.nil_append] at hwords
  obtain ⟨hinner, houter⟩ := List.pairwise_flatMap.1 (horder.sublist hwords)
  have hsub : ∀ d ∈ ds, d.word ⊆ tokens := fun d hd token htoken =>
    hwords.subset (List.mem_flatMap.2 ⟨d, hd, htoken⟩)
  have hanchored : ∀ d ∈ ds, ∀ event ∈ d.events, event.Anchored d.word := fun d hd =>
    d.anchored_events (fun token htoken => hvisible token (hsub d hd htoken)) (hinner d hd)
  refine ⟨fun event hevent => ?_, ?_, h.reports⟩
  · by_cases hstatement : event.isStatement = true
    · have hmem := mem_statementsOf.2 ⟨hevent, hstatement⟩
      rw [hds] at hmem
      obtain ⟨d, hd, hevent⟩ := List.mem_flatMap.1 hmem
      exact (hanchored d hd event hevent).mono (hsub d hd)
    · cases event with
      | report finding => trivial
      | _ => exact absurd rfl hstatement
  · rw [hds]
    refine List.pairwise_flatMap.2 ⟨fun d _ => ?_, houter.imp_of_mem ?_⟩
    · -- A statement is at most one event.
      show (Option.toList d.content).Pairwise _
      cases d.content with
      | none => exact .nil
      | some event => exact List.pairwise_singleton _ _
    · intro d d' hd hd' hbehind event hevent event' hevent'
      exact ⟨d.word, d'.word, hanchored d hd event hevent, hanchored d' hd' event' hevent', hbehind⟩

/-- **The events of a text** are laid over its tokens. -/
theorem laid_parse (budget : Nat) (origin : Location) (text : String) :
    Laid (Scanner.startingAt origin text).tokens.1 (parse budget origin text).events := by
  have hlayout := (Scanner.startingAt origin text).layout
  exact (parse_handsOver budget origin text).laid hlayout.visible hlayout.ordered

/-! ### Positions -/

section

variable {scope : Scope} {events : List Event} {event : Event} {d : Diagnostic}
  {tokens word : List Token}

/-- What is found about a statement points into its word. -/
theorem Found.span?_anchored (h : Found scope events event d) (hstatement : event.isStatement = true)
    (hword : event.Anchored word) : ∃ s, d.span? = some s ∧ s.Anchored word := by
  cases h with
  | report => cases hstatement
  | node _ => exact ⟨_, rfl, hword⟩
  | setting _ => exact ⟨_, rfl, hword⟩
  | unknown hoption => exact ⟨_, rfl, hword.2.1.1 _ hoption⟩
  | invalid hoption => exact ⟨_, rfl, hword.2.1.1 _ hoption⟩
  | unresolved => exact ⟨_, rfl, hword.1⟩
  | duplicate _ => exact ⟨_, rfl, hword.1⟩
  | sourceless => exact ⟨_, rfl, hword.1⟩

namespace Laid

theorem exists_error (h : Laid tokens events) (hreport : .report d ∈ events) :
    ∃ error : SyntaxError, error.token ∈ tokens ∧ d = error.toDiagnostic := by
  obtain ⟨errors, hreports, htokens⟩ := h.reports
  have hmem := mem_reportsOf.2 hreport
  rw [hreports] at hmem
  obtain ⟨error, herror, rfl⟩ := List.mem_map.1 hmem
  exact ⟨error, htokens.subset (List.mem_map_of_mem herror), rfl⟩

/-- **The position of a finding** is that of tokens. -/
theorem span?_found (h : Laid tokens events) (hvisible : Visible tokens) (hevent : event ∈ events)
    (hfound : Found scope events event d) : ∃ s, d.span? = some s ∧ s.Anchored tokens := by
  by_cases hstatement : event.isStatement = true
  · exact hfound.span?_anchored hstatement (h.anchored event hevent)
  · cases event with
    | report finding =>
      cases hfound
      obtain ⟨error, htoken, rfl⟩ := h.exists_error hevent
      exact ⟨error.span, rfl, Span.anchored_token htoken (hvisible _ htoken)⟩
    | _ => exact absurd rfl hstatement

theorem span_node (h : Laid tokens events) {n : Node} (hn : n ∈ nodesOf events) :
    n.span.Anchored tokens := by
  obtain ⟨event, hevent, hnode⟩ := List.mem_filterMap.1 hn
  cases event with
  | node s =>
    rw [← Option.some.inj hnode]
    exact h.anchored _ hevent
  | _ => cases hnode

theorem span_setting (h : Laid tokens events) {a : Assignment} (ha : a ∈ settingsOf events) :
    a.span.Anchored tokens := by
  obtain ⟨event, hevent, hsetting⟩ := List.mem_filterMap.1 ha
  cases event with
  | setting b =>
    rw [← Option.some.inj hsetting]
    exact h.anchored _ hevent
  | _ => cases hsetting

/-- **All labels of a finding** are at tokens, except for those at seeds. -/
theorem labels_found (h : Laid tokens events) (hvisible : Visible tokens) (hevent : event ∈ events)
    (hfound : Found scope events event d) {label : Label} (hlabel : label ∈ d.labels) :
    label.span.Anchored tokens ∨ ∃ n ∈ scope.seeds, label.span = n.span := by
  have hanchored := h.anchored event hevent
  cases hfound with
  | report =>
    obtain ⟨error, htoken, rfl⟩ := h.exists_error hevent
    rw [List.mem_singleton.1 hlabel]
    exact .inl (Span.anchored_token htoken (hvisible _ htoken))
  | node hfirst =>
    rcases List.mem_cons.1 hlabel with rfl | hlabel
    · exact .inl hanchored
    · rw [List.mem_singleton.1 hlabel]
      rcases List.mem_append.1 hfirst with hseed | hnode
      · exact .inr ⟨_, hseed, rfl⟩
      · exact .inl (h.span_node hnode)
  | setting hprevious =>
    rcases List.mem_cons.1 hlabel with rfl | hlabel
    · exact .inl hanchored
    · rw [List.mem_singleton.1 hlabel]
      exact .inl (h.span_setting hprevious)
  | unknown hoption =>
    rw [List.mem_singleton.1 hlabel]
    exact .inl (hanchored.2.1.1 _ hoption)
  | invalid hoption =>
    rw [List.mem_singleton.1 hlabel]
    exact .inl (hanchored.2.1.1 _ hoption)
  | unresolved =>
    rw [List.mem_singleton.1 hlabel]
    exact .inl hanchored.1
  | duplicate hother =>
    rcases List.mem_cons.1 hlabel with rfl | hlabel
    · exact .inl hanchored.1
    · rw [List.mem_singleton.1 hlabel]
      have hother' := h.anchored _ hother
      exact .inl hother'.1
  | sourceless =>
    rw [List.mem_singleton.1 hlabel]
    exact .inl hanchored.1

end Laid

/-! ### The graph -/

/-- The spans of a graph are those of tokens, except for the spans of seeds, and its payloads stand in
tokens. -/
structure Graph.LaidOver (tokens : List Token) (seeds : List Node) (g : Graph) : Prop where
  /-- A node that is no seed is made of tokens. -/
  nodes : ∀ n ∈ g.nodes, n ∈ seeds ∨ n.span.Anchored tokens
  /-- So is the assignment of a setting. -/
  settings : ∀ p ∈ g.settings.entries, p.2.span.Anchored tokens
  /-- So is an edge. -/
  edges : ∀ e ∈ g.edges, e.span.Anchored tokens
  /-- A payload stands in a token of its edge. -/
  payloads : ∀ e ∈ g.edges, ∀ payload, e.details.payload = some payload → ∃ token ∈ tokens,
    token.Sends payload ∧ e.span.start ≤ token.span.start ∧ token.span.stop ≤ e.span.stop

/-- **The graph of a unit** is laid over the tokens of its text. -/
theorem Laid.laidOver (h : Laid tokens events) (scope : Scope) :
    (Draft.ofEvents scope events).graph.LaidOver tokens scope.seeds where
  nodes := by
    intro n hn
    rw [nodes_ofEvents] at hn
    refine (List.mem_append.1 ((firsts_sublist _ _).subset hn)).imp_right ?_
    exact fun hnode => h.span_node hnode
  settings := by
    intro p hp
    obtain ⟨a, ha, -, hspan⟩ := exists_assignment hp
    rw [hspan]
    exact h.span_setting ha
  edges := by
    intro e he
    obtain ⟨s, hs, hspan, -⟩ := exists_edge_statement (mem_edgesOf.1 (mem_edges_ofEvents he).1)
    rw [hspan]
    exact (h.anchored _ hs).1
  payloads := by
    intro e he payload hpayload
    obtain ⟨s, hs, hspan, hsent⟩ := exists_edge_statement (mem_edgesOf.1 (mem_edges_ofEvents he).1)
    rw [hspan]
    exact (h.anchored _ hs).2.2 payload (hsent.symm.trans hpayload)

end

/-! ### Places -/

namespace Layout

variable {origin : Location} {text : List Char} {tokens : List Token} {token last : Token}

/-- What is made of tokens of a text is true in it. -/
theorem within_of_anchored (h : Layout origin text tokens last) {s : Span}
    (hs : s.Anchored tokens) : s.Within origin text := by
  obtain ⟨-, a, ha, b, hb, hlocation, hstop⟩ := hs
  rw [Span.within_iff, hlocation, hstop]
  exact ⟨(h.within a ha).location, (Span.within_iff.1 (h.within b hb)).2⟩

/-- **A payload** is a piece of the text around it, between two braces that its token covers. -/
theorem piece (h : Layout origin text tokens last) (htoken : token ∈ tokens)
    {payload : Located String} (hsends : token.Sends payload) :
    ∃ before behind, text = before ++ payload.value.toList ++ behind ∧
      payload.span = .ofText (origin.advance before) payload.value.toList ∧
      token.span.start < payload.span.start ∧ payload.span.stop < token.span.stop := by
  obtain ⟨hkind, hspan⟩ := hsends
  obtain ⟨before, behind, htext, htokenSpan⟩ := h.encloses token htoken _ hkind
  have hlocation : token.innerLocation = origin.advance (before ++ ['\x7b']) := by
    rw [Token.innerLocation, htokenSpan, Location.advance_append]
    rfl
  rw [hlocation] at hspan
  refine ⟨before ++ ['\x7b'], '\x7d' :: behind, ?_, hspan, ?_, ?_⟩
  · rw [htext]
    simp only [List.append_assoc, List.cons_append, List.nil_append]
  · rw [hspan, htokenSpan, Location.advance_append]
    show (origin.advance before).offset < ((origin.advance before).step '\x7b').offset
    rw [Location.offset_step]
    exact Nat.lt_add_of_pos_right (Char.utf8Size_pos _)
  · have hbraces : '\x7b' :: payload.value.toList ++ ['\x7d'] =
        ['\x7b'] ++ payload.value.toList ++ ['\x7d'] := rfl
    rw [hspan, htokenSpan, Span.stop_ofText, Span.stop_ofText, hbraces, ← Location.advance_append,
      ← Location.advance_append, Location.offset_advance, Location.offset_advance]
    simp only [byteLength_append, byteLength_cons, byteLength_nil]
    have hpos := Char.utf8Size_pos '\x7d'
    omega

end Layout

end CallGraph
