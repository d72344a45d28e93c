import CallGraph.Proofs.Grammar.Statement
import CallGraph.Proofs.Parser.Strict
import CallGraph.Proofs.Unit.Spans

/-!
# Statements read on their own

The span of a statement takes just the statement out of a source: read on its own, at the place where it
stands, the text under the span gives the same statement again.

* `Reads.exists_pieces_of_run` — what a strict run hands over has been read, also if the run fails;
* `exists_statement_of_parse` — so each event is a statement derived from neighbouring tokens;
* `parse_of_derivation` — a text whose tokens are derived is read to its end;
* `exists_excerpt` — **the text under the span of a statement**;
* `statement_spans_delimit` — it is read as that statement, and the spans of statements lie one behind the
  other.
-/

namespace CallGraph

/-! ### Strict runs -/

section

variable {last : Token} {base : List Frame} {tokens word : List Token} {m : Machine}
  {pieces : List Piece}

/-- **What a strict run hands over** is what it has read of the tokens, whether it fails later or not. -/
theorem Reads.exists_pieces_of_run (hlast : last.kind = .endOfInput) (hbase : Foundation .start base)
    (hvisible : Visible tokens) (hm : m.discarding = none) (h : Reads base word m.stack pieces) :
    ∃ pieces', wordOf pieces' <+: word ++ tokens ∧
      eventsOf pieces' = eventsOf pieces ++ (m.run 0 last tokens).events := by
  induction tokens generalizing m word pieces with
  | nil =>
    have ht : last.kind.terminal = .ok .endOfInput := by rw [hlast, TokenKind.terminal]
    obtain ⟨events, stack', pieces', verdict, hs⟩ := exists_settles hbase h.stacked (Or.inl rfl) ht
    rw [Machine.run, Machine.finish_of_settle hm hs.settle_eq]
    refine ⟨pieces', ?_, hs.events_eq⟩
    rw [hs.word_eq.trans h.word_eq]
    exact List.prefix_append _ _
  | cons token tokens ih =>
    rcases h.feed_strict hbase hm (hvisible token List.mem_cons_self) with
      ⟨mistake, -, hfeed⟩ | ⟨t, events, stack', pieces', verdict, -, hs, -, hfeed⟩ |
      ⟨events, m', pieces', hm', h', hevents, hfeed⟩
    · rw [Machine.run_cons_error hfeed]
      refine ⟨pieces, ?_, (List.append_nil _).symm⟩
      rw [h.word_eq]
      exact List.prefix_append _ _
    · rw [Machine.run_cons_error hfeed]
      refine ⟨pieces', ?_, hs.events_eq⟩
      rw [hs.word_eq.trans h.word_eq]
      exact List.prefix_append _ _
    · rw [Machine.run_cons_ok hfeed]
      obtain ⟨final, hword, hfinal⟩ :=
        ih (fun token h => hvisible token (List.mem_cons_of_mem _ h)) hm' h'
      refine ⟨final, ?_, ?_⟩
      · rwa [List.append_cons]
      · rw [hfinal, hevents, List.append_assoc]

end

section

variable {origin : Location} {source : String} {event : Event}

/-- Each event of a strict parse is a statement that is derived from neighbouring tokens. -/
theorem exists_statement_of_parse (h : event ∈ (parse 0 origin source).events) :
    ∃ said : Derivation (.nonterminal .statement), said.events = [event] ∧
      said.word <:+: (Scanner.startingAt origin source).tokens.1 := by
  have hvisible := (Scanner.startingAt origin source).visible_tokens
  have hlast := (Scanner.startingAt origin source).kind_last
  have hbase : Foundation .start (emptyStack origin) := .start rfl
  have hreads : Reads (emptyStack origin) [] (Machine.initial origin).stack [] := .base _
  obtain ⟨pieces, hword, hevents⟩ := hreads.exists_pieces_of_run hlast hbase hvisible rfl
  have hmem : event ∈ eventsOf pieces := by
    rw [hevents]
    exact List.mem_append_right _ h
  obtain ⟨piece, hpiece, hevent⟩ := List.mem_flatMap.1 hmem
  obtain ⟨said, hsaid, hwithin⟩ := piece.tree.exists_statement hevent
  obtain ⟨front, rear, hsplit⟩ := List.append_of_mem hpiece
  have hpart : piece.word <:+: wordOf pieces := by
    refine ⟨front.flatMap Piece.word, rear.flatMap Piece.word, ?_⟩
    rw [wordOf, hsplit, List.flatMap_append, List.flatMap_cons, List.append_assoc]
  exact ⟨said, hsaid, hwithin.trans (hpart.trans hword.isInfix)⟩

/-- **A text whose tokens are derived** is read to its end, and its statements are handed over. -/
theorem parse_of_derivation {d : Derivation (.nonterminal .statements)}
    (hword : d.word = (Scanner.startingAt origin source).tokens.1) :
    (parse 0 origin source).result = .ok () ∧ (parse 0 origin source).events = d.events := by
  have hvisible := (Scanner.startingAt origin source).visible_tokens
  have hlast := (Scanner.startingAt origin source).kind_last
  have hbase : Foundation .start (emptyStack origin) := .start rfl
  have hreads : Reads (emptyStack origin) [] (Machine.initial origin).stack [] := .base _
  have hok : (parse 0 origin source).result = .ok () :=
    run_ok_of_derivation hlast hbase rfl hreads (hword ▸ hvisible) hword
  obtain ⟨d', hword', hevents⟩ := exists_derivation_of_run hlast hbase hvisible rfl hreads hok
  have hsame : d = d' := statements_unique (hword ▸ hvisible) (hword.trans hword'.symm)
  exact ⟨hok, hsame ▸ hevents.symm⟩

/-- A single statement is a text. -/
theorem Derivation.exists_alone (said : Derivation (.nonterminal .statement)) :
    ∃ d : Derivation (.nonterminal .statements), d.word = said.word ∧ d.events = said.events := by
  exact ⟨.branch .moreStatements (.cons (.branch .noStatements .nil) (.cons said .nil)),
    List.append_nil _, rfl⟩

/-! ### The text under a span -/

/-- **The text under the span of a statement** is cut into the tokens of the statement. -/
theorem exists_excerpt (h : event ∈ (parse 0 origin source).events) :
    ∃ span before slice behind, event.span? = some span ∧ source = before ++ slice ++ behind ∧
      span = .ofText (origin.advance before.toList) slice.toList ∧
      ∃ again : Derivation (.nonterminal .statement), again.events = [event] ∧
        (Scanner.startingAt span.location (slice ++ event.ending)).tokens.1 = again.word := by
  have hlayout := (Scanner.startingAt origin source).layout
  have hscans := (Scanner.startingAt origin source).scans
  obtain ⟨said, hsaid, front, rear, htokens⟩ := exists_statement_of_parse h
  have hwithin : said.word.Sublist (Scanner.startingAt origin source).tokens.1 :=
    List.IsInfix.sublist ⟨front, rear, htokens⟩
  obtain ⟨body, rest, span, hword, hspan, hdelimits, hagain⟩ := said.delimited hsaid
    (fun token htoken => hlayout.visible token (hwithin.subset htoken))
    (hlayout.ordered.sublist hwithin)
  obtain ⟨first, body, rfl⟩ := List.exists_cons_of_ne_nil hdelimits.ne_nil
  have hvalid : ∀ token ∈ first :: body, ∀ mistake, token.kind ≠ .invalid mistake := by
    intro token htoken mistake hkind
    obtain ⟨t, ht⟩ := said.exists_terminal (hword ▸ List.mem_append_left rest htoken)
    rw [hkind] at ht
    cases ht
  -- The tokens before the statement are passed, and the piece that its tokens cover is cut out.
  rw [← htokens, hword, List.append_assoc] at hscans
  obtain ⟨passed, left, hpassed, hleft⟩ := hscans.split
  rw [List.append_assoc] at hleft
  obtain ⟨gap, piece, behind, rfl, -, -, hlocation, hstop, hending⟩ := hleft.excerpt hvalid
  obtain ⟨first', last, hfirst, hlast, hstarts, hstops⟩ := hdelimits
  obtain rfl := Option.some.inj hfirst
  have hplace : span = .ofText ((origin.advance passed).advance gap) piece :=
    Span.eq_ofText (hstarts.trans hlocation) (hstops.trans (hstop last hlast))
  obtain ⟨again, hwordAgain, heventsAgain⟩ :=
    hagain (((origin.advance passed).advance gap).advance piece)
  have htokensAgain := (hending _ _ event.stops_ending (event.scans_ending _)).tokens_eq
    (String.ofList piece ++ event.ending)
  refine ⟨span, .ofList (passed ++ gap), .ofList piece, .ofList behind, hspan, ?_, ?_, again,
    heventsAgain, ?_⟩
  · refine String.toList_injective ?_
    rw [show source.toList = _ from hpassed]
    simp [String.toList_append]
  · rw [hplace, String.toList_ofList, String.toList_ofList, Location.advance_append]
  · rw [hwordAgain, hplace]
    unfold Scanner.startingAt
    rw [String.toList_append, String.toList_ofList]
    exact congrArg Prod.fst htokensAgain

theorem Event.Anchored.span {word : List Token} (h : event.Anchored word) {s : Span}
    (hs : event.span? = some s) : s.Anchored word := by
  cases event with
  | node statement =>
    rw [← Option.some.inj hs]
    exact h
  | edge statement =>
    rw [← Option.some.inj hs]
    exact h.1
  | setting a =>
    rw [← Option.some.inj hs]
    exact h
  | report finding => cases hs

end

/-- **The spans of statements delimit the statements.**  Whatever a strict parse hands over, also if it
fails later, is a statement with a span.  The text under the span is a piece of the source, and together
with a semicolon, if the statement takes one, it is read to its end at the place where it stands as
exactly this statement, with all its names, values and spans.  The spans of the statements lie one behind
the other. -/
theorem statement_spans_delimit (origin : Location) (source : String) :
    let events := (parse 0 origin source).events
    (∀ event ∈ events, ∃ span before slice behind, event.span? = some span ∧
      source = before ++ slice ++ behind ∧
      span = .ofText (origin.advance before.toList) slice.toList ∧
      let again := parse 0 span.location (slice ++ event.ending)
      again.result = .ok () ∧ again.events = [event]) ∧
    events.Pairwise fun a b => ∀ s ∈ a.span?, ∀ t ∈ b.span?, s.stop ≤ t.start := by
  intro events
  refine ⟨fun event hevent => ?_, ?_⟩
  · obtain ⟨span, before, slice, behind, hspan, hsource, hplace, again, hagain, htokens⟩ :=
      exists_excerpt hevent
    obtain ⟨d, hword, hevents⟩ := again.exists_alone
    obtain ⟨hok, hread⟩ := parse_of_derivation (hword.trans htokens.symm)
    exact ⟨span, before, slice, behind, hspan, hsource, hplace, hok,
      hread.trans (hevents.trans hagain)⟩
  · have hstatements : statementsOf events = events := by
      refine List.filter_eq_self.2 fun event hevent => ?_
      obtain ⟨span, -, -, -, hspan, -⟩ := exists_excerpt hevent
      cases event with
      | report finding => cases hspan
      | _ => rfl
    have hbehind := (laid_parse 0 origin source).behind
    rw [show statementsOf (parse 0 origin source).events = events from hstatements] at hbehind
    refine hbehind.imp fun {a b} h s hs t ht => ?_
    obtain ⟨word, others, ha, hb, hordered⟩ := h
    exact (ha.span hs).stop_le_start (hb.span ht) hordered

end CallGraph
