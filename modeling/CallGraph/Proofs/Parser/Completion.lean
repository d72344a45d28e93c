import CallGraph.Proofs.Grammar.Language
import CallGraph.Proofs.Parser.Settle

/-!
# Completing a statement

What is on the stack above the complete statements is the beginning of one more statement, and
`State.distance` tells how far its end is.

* `exists_completion` — **viability**: as many tokens as the distance complete the statement;
* `eventsOf_eq_nil` — a statement that is not complete has handed over nothing;
* `exists_closing` — a statement at distance zero is complete: it is handed over whatever token
  comes next, and the stack is left between two statements.
-/

namespace CallGraph

/-! ### Stacks above complete statements -/

section

variable {base stack : List Frame} {pieces : List Piece}

theorem Stacked.topState_ne_start (h : Stacked base stack pieces)
    (hbase : Foundation .statements base) : topState stack ≠ .start := by
  cases h with
  | base =>
    rw [hbase.topState_eq]
    decide
  | push _ hnext _ => exact State.next?_ne_start hnext

/-- Between two statements nothing is above the complete ones. -/
theorem Stacked.eq_base (h : Stacked base stack pieces) (hbase : Foundation .statements base)
    (htop : topState stack = .statements) : stack = base ∧ pieces = [] := by
  cases h with
  | base => exact ⟨rfl, rfl⟩
  | @push stack pieces frame piece h hnext _ =>
    rw [show frame.state = .statements from htop] at hnext
    obtain ⟨hstart, -⟩ := State.eq_start_of_next? hnext
    exact absurd hstart (h.topState_ne_start hbase)

/-- Behind a statement nothing else is above the complete ones. -/
theorem Stacked.eq_of_statement (h : Stacked base stack pieces)
    (hbase : Foundation .statements base) (htop : topState stack = .statement) :
    ∃ (frame : Frame) (d : Derivation (.nonterminal .statement)),
      stack = frame :: base ∧ pieces = [⟨_, d⟩] := by
  cases h with
  | base =>
    rw [hbase.topState_eq] at htop
    simp only [reduceCtorEq] at htop
  | @push stack pieces frame piece h hnext _ =>
    obtain ⟨x, d⟩ := piece
    rw [show frame.state = .statement from htop] at hnext
    obtain ⟨hstatements, rfl⟩ := State.eq_statements_of_next? hnext
    obtain ⟨rfl, rfl⟩ := h.eq_base hbase hstatements
    exact ⟨frame, d, rfl, rfl⟩

/-- The tokens under the frames cover something. -/
theorem Stacked.visible (h : Stacked base stack pieces) : Visible (wordOf pieces) := by
  induction h with
  | base => exact fun _ hnil => absurd hnil List.not_mem_nil
  | push _ _ hholds ih =>
    intro token htoken
    rw [wordOf_cons] at htoken
    rcases List.mem_append.1 htoken with hword | hlast
    · exact ih token hword
    · exact hholds.visible token hlast

theorem Derivation.events_eq_nil {x : Symbol} (d : Derivation x)
    (hstatements : x ≠ .nonterminal .statements) (hstatement : x ≠ .nonterminal .statement) :
    d.events = [] := by
  unfold Derivation.events
  match x, d.content with
  | .terminal _, _ => rfl
  | .nonterminal n, _ => cases n <;> first | rfl | contradiction

/-- **A statement that is not complete has handed over nothing.** -/
theorem eventsOf_eq_nil (h : Stacked base stack pieces) (hbase : Foundation .statements base)
    (htop : topState stack ≠ .statement) : eventsOf pieces = [] := by
  induction h with
  | base => rfl
  | @push stack pieces frame piece h hnext _ ih =>
    have hbelow : topState stack ≠ .statement := by
      intro hstatement
      rw [hstatement, State.next?_statement] at hnext
      simp only [reduceCtorEq] at hnext
    have hstart := h.topState_ne_start hbase
    -- Only statements have events, and they lead behind a statement.
    have hevents : piece.events = [] := by
      apply piece.tree.events_eq_nil
      · exact fun hx => htop (State.eq_statement_of_next? hnext hstart (Or.inl hx))
      · exact fun hx => htop (State.eq_statement_of_next? hnext hstart (Or.inr hx))
    rw [eventsOf_cons, ih hbelow, hevents]
    rfl

end

/-! ### Viability -/

/-- A token that stands for the terminal. -/
def Terminal.standIn (t : Terminal) : Token :=
  let kind : TokenKind :=
    match t with
    | .dot => .dot
    | .identifier => .identifier ""
    | .text => .text ""
    | .number => .number 0
    | .arrow => .arrow
    | .equals => .equals
    | .comma => .comma
    | .leftBracket => .leftBracket
    | .rightBracket => .rightBracket
    | .semicolon => .semicolon
    | .block => .payload ""
    | .endOfInput => .endOfInput
  ⟨kind, "", ⟨default, 1⟩⟩

theorem Terminal.standIn_stands (t : Terminal) : t.standIn.kind.terminal = .ok t := by
  cases t <;> rfl

/-- **What is on the stack is the beginning of a statement.**  As many tokens as the distance of the
state on top complete it. -/
theorem exists_completion {base stack : List Frame} {pieces : List Piece}
    (hbase : Foundation .statements base) (h : Stacked base stack pieces) :
    ∃ (d : Derivation (.nonterminal .statement)) (missing : List Token),
      Visible d.word ∧ d.word = wordOf pieces ++ missing ∧
        missing.length = (topState stack).distance := by
  by_cases hstatement : topState stack = .statement
  · obtain ⟨frame, d, rfl, rfl⟩ := h.eq_of_statement hbase hstatement
    have hword : wordOf [⟨_, d⟩] = d.word := by
      rw [wordOf_cons]
      rfl
    refine ⟨d, [], hword ▸ h.visible, ?_, ?_⟩
    · rw [hword, List.append_nil]
    · rw [hstatement]
      rfl
  · rcases State.action_onward _ hstatement with ⟨rule, haction, hrule⟩ | ⟨next, haction, hnext⟩
    · -- A reduction needs no token.
      obtain ⟨children, lower, stack', rfl, hreduce, hstacked, hdistance⟩ :=
        h.reduce_eq hbase haction (Or.inr hrule) default
      have hrank : (topState stack').rank < (topState stack).rank :=
        rank_reduce_lt haction hreduce
      have hsame : (topState stack').distance = (topState stack).distance := hdistance hrule
      obtain ⟨d, missing, hvisible, hword, hlength⟩ := exists_completion hbase hstacked
      refine ⟨d, missing, hvisible, ?_, hlength.trans hsame⟩
      rw [hword, wordOf_branch]
    · -- Otherwise a token that leads on is made up.
      have hstands := (topState stack).onward.standIn_stands
      let token := (topState stack).onward.standIn
      have hpush : Stacked base (.ofToken next token :: stack) (⟨_, .leaf token hstands⟩ :: pieces) :=
        h.push (State.next?_terminal.2 haction)
          ⟨rfl, rfl, fun other hother => (List.mem_singleton.1 hother) ▸ rfl⟩
      have hcloser : (topState (.ofToken next token :: stack)).distance <
          (topState stack).distance := by
        show next.distance < _
        omega
      obtain ⟨d, missing, hvisible, hword, hlength⟩ := exists_completion hbase hpush
      refine ⟨d, token :: missing, hvisible, ?_, ?_⟩
      · rw [hword, wordOf_cons, List.append_assoc]
        rfl
      · rw [List.length_cons, hlength]
        exact hnext
termination_by ((topState stack).distance, (topState stack).rank)
decreasing_by
  · rw [hsame]
    exact Prod.Lex.right _ hrank
  · exact Prod.Lex.left _ _ hcloser

/-! ### The end of a statement -/

/-- The last statement goes to the ones before it. -/
theorem reduce_moreStatements {frame between bottom : Frame} (hbottom : bottom.state = .start)
    (here : Location) :
    ∃ base, Foundation .statements base ∧
      reduce .moreStatements here [frame, between, bottom] = .ok (base, none) := by
  obtain ⟨state, meaning, span⟩ := bottom
  obtain rfl : state = .start := hbottom
  let covered := (Span.cover? [between.span, frame.span]).getD (.empty here)
  exact ⟨[⟨.statements, .nothing, covered⟩, _], .statements rfl rfl, rfl⟩

/-- Between two statements there is nothing to reduce. -/
theorem settle_statements {base : List Frame} (hbase : Foundation .statements base) (t : Terminal)
    (here : Location) :
    ∃ verdict : Verdict, State.statements.action t = verdict.action ∧
      settle t here base = ([], .ok (base, verdict)) := by
  obtain ⟨verdict, hverdict⟩ := exists_verdict (State.action_statements_ne_reduce t)
  refine ⟨verdict, hverdict, settle_of_verdict here ?_⟩
  rw [hbase.topState_eq]
  exact hverdict

/-- **A statement at distance zero is complete.**  It is handed over whatever token comes next, and
the stack is left between two statements. -/
theorem exists_closing {base stack : List Frame} {pieces : List Piece}
    (hbase : Foundation .statements base) (h : Stacked base stack pieces)
    (hdistance : (topState stack).distance = 0) (t : Terminal) (here : Location) :
    ∃ (d : Derivation (.nonterminal .statement)) (events : List Event) (base' : List Frame)
      (verdict : Verdict), d.word = wordOf pieces ∧ d.events = eventsOf pieces ++ events ∧
        Foundation .statements base' ∧ State.statements.action t = verdict.action ∧
        settle t here stack = (events, .ok (base', verdict)) := by
  induction hrank : (topState stack).rank using Nat.strongRecOn generalizing stack pieces with
  | ind n ih =>
    obtain ⟨rule, haction, hstatement⟩ := State.reduces_of_distance t hdistance
    by_cases hrule : rule = .moreStatements
    · -- The statement goes to the ones before it, and nothing more is reduced.
      subst hrule
      obtain ⟨frame, d, rfl, rfl⟩ := h.eq_of_statement hbase (hstatement rfl)
      cases hbase with
      | statements _ hbottom =>
        obtain ⟨base', hbase', hreduce⟩ := reduce_moreStatements hbottom here
        obtain ⟨verdict, hverdict, hsettle⟩ := settle_statements hbase' t here
        refine ⟨d, [], base', verdict, ?_, ?_, hbase', hverdict, ?_⟩
        · rw [wordOf_cons]
          rfl
        · rw [eventsOf_cons, List.append_nil]
          rfl
        · rw [settle_of_reduce haction hreduce, hsettle]
          rfl
    · obtain ⟨children, lower, stack', rfl, hreduce, hstacked, hsame⟩ :=
        h.reduce_eq hbase haction (Or.inr hrule) here
      have hlt : (topState stack').rank < n := hrank ▸ rank_reduce_lt haction hreduce
      have hdistance' : (topState stack').distance = 0 := (hsame hrule).trans hdistance
      obtain ⟨d, events, base', verdict, hword, hevents, hbase', hverdict, hsettle⟩ :=
        ih _ hlt hstacked hdistance' rfl
      refine ⟨d, rule.completes children.contents ++ events, base', verdict, ?_, ?_, hbase',
        hverdict, ?_⟩
      · rw [hword, wordOf_branch]
      · rw [hevents, eventsOf_branch, List.append_assoc]
      · rw [settle_of_reduce haction hreduce, hsettle, completes_toList]

end CallGraph
