import CallGraph.Proofs.Grammar.Language
import CallGraph.Proofs.Parser.Run

/-!
# Strict parsing

A strict parser has no budget: it gives up at the first mistake.

* `statements_unique` — the grammar is unambiguous;
* `exists_derivation_of_run` — **soundness**: what a strict parser reads to its end is a word of the
  grammar, and the statements of its derivation are handed over;
* `run_ok_of_derivation` — **completeness**: it reads each word of the grammar to its end;
* `strict_parse` — so it accepts exactly the language, for every text.
-/

namespace CallGraph

/-- The final configuration of a text that is derived by `d`. -/
theorem statements_moves (d : Derivation (.nonterminal .statements)) (hvisible : Visible d.word)
    {base : List Frame} (hbase : Foundation .start base) {last : Token}
    (hlast : last.kind = .endOfInput) :
    ∃ stack, topState stack = .statements ∧
      Moves ⟨base, [], d.word ++ [last]⟩ ⟨stack, [⟨_, d⟩], [last]⟩ := by
  have ht : last.kind.terminal = .ok .endOfInput := by rw [hlast, TokenKind.terminal]
  have hnext : (topState base).next? (.nonterminal .statements) = some .statements := by
    rw [hbase.topState_eq]
    rfl
  obtain ⟨frame, hstate, -, hmoves⟩ := d.moves hvisible hbase.ne_nil [] hnext ht rfl []
  exact ⟨frame :: base, hstate, hmoves⟩

theorem isStuck_of_statements {stack : List Frame} {pieces : List Piece} {last : Token}
    (hlast : last.kind = .endOfInput) (h : topState stack = .statements) :
    Config.IsStuck ⟨stack, pieces, [last]⟩ := by
  have ht : last.kind.terminal = .ok .endOfInput := by rw [hlast, TokenKind.terminal]
  refine isStuck_of_action ht (Or.inl ?_)
  rw [h]
  rfl

/-- **The grammar is unambiguous.** -/
theorem statements_unique {d d' : Derivation (.nonterminal .statements)}
    (hvisible : Visible d.word) (h : d.word = d'.word) : d = d' := by
  have hlast : (Token.endAt default).kind = .endOfInput := rfl
  have hbase : Foundation .start (emptyStack default) := .start rfl
  obtain ⟨stack, htop, hmoves⟩ := statements_moves d hvisible hbase hlast
  obtain ⟨stack', htop', hmoves'⟩ := statements_moves d' (h ▸ hvisible) hbase hlast
  rw [← h] at hmoves'
  have heq := hmoves.eq_of_isStuck hmoves' (isStuck_of_statements hlast htop)
    (isStuck_of_statements hlast htop')
  exact eq_of_heq (Piece.mk.inj (List.cons.inj (Config.mk.inj heq).2.1).1).2

/-- Between two statements nothing but complete statements is on the stack. -/
theorem Stacked.eq_of_statements {base stack : List Frame} {pieces : List Piece}
    (hbase : Foundation .start base) (h : Stacked base stack pieces)
    (htop : topState stack = .statements) :
    ∃ d : Derivation (.nonterminal .statements), pieces = [⟨_, d⟩] := by
  cases h with
  | base =>
    rw [hbase.topState_eq] at htop
    simp only [reduceCtorEq] at htop
  | @push stack pieces frame piece h hnext _ =>
    obtain ⟨x, d⟩ := piece
    rw [show frame.state = .statements from htop] at hnext
    obtain ⟨hstart, rfl⟩ := State.eq_start_of_next? hnext
    cases h with
    | base => exact ⟨d, rfl⟩
    | push _ hnext' _ => exact absurd hstart (State.next?_ne_start hnext')

section

variable {last : Token} {base : List Frame} {tokens word : List Token} {m : Machine}
  {pieces : List Piece}

/-- **One token of a strict run.**  A mistake is fatal, and so is a token that is not taken once all
reductions before it have been made.  A token that is taken belongs to the word that has been read. -/
theorem Reads.feed_strict {token : Token} (h : Reads base word m.stack pieces)
    (hbase : Foundation .start base) (hm : m.discarding = none)
    (hvisible : token.span.isEmpty = false) :
    (∃ mistake, token.kind.terminal = .error mistake ∧
      m.feed 0 token = ([], .error ⟨token, .lexical mistake⟩)) ∨
    (∃ t events stack' pieces' verdict, token.kind.terminal = .ok t ∧
      Settles .start base m.stack pieces token t events stack' pieces' verdict ∧
      (∀ next, verdict ≠ .shift next) ∧
      m.feed 0 token = (events, .error ⟨token, .unexpected (topState stack').expected⟩)) ∨
    ∃ events m' pieces', m'.discarding = none ∧ Reads base (word ++ [token]) m'.stack pieces' ∧
      eventsOf pieces' = eventsOf pieces ++ events ∧ m.feed 0 token = (events, .ok m') := by
  cases ht : token.kind.terminal with
  | error mistake =>
    refine .inl ⟨mistake, rfl, ?_⟩
    rw [Machine.feed_of_mistake ht, if_pos rfl]
  | ok t =>
    right
    obtain ⟨events, stack', pieces', verdict, hs⟩ := exists_settles hbase h.stacked (Or.inl rfl) ht
    by_cases hverdict : ∃ next, verdict = .shift next
    · right
      obtain ⟨next, rfl⟩ := hverdict
      refine ⟨events, _, _, ?_, (h.halts hbase hs).shift ht hvisible, ?_,
        Machine.feed_shift hm ht hs.settle_eq⟩
      · exact hm
      · rw [eventsOf_cons, hs.events_eq]
        exact List.append_nil _
    · left
      refine ⟨t, events, stack', pieces', verdict, rfl, hs, not_exists.1 hverdict, ?_⟩
      rw [Machine.feed_refused hm ht hs.settle_eq (not_exists.1 hverdict), Machine.recover, if_pos rfl,
        List.append_nil]

/-- **Soundness.**  A strict run that comes to the end has read a word of the grammar, and has
handed over the statements of its derivation. -/
theorem exists_derivation_of_run (hlast : last.kind = .endOfInput)
    (hbase : Foundation .start base) (hvisible : Visible tokens) (hm : m.discarding = none)
    (h : Reads base word m.stack pieces) (hok : (m.run 0 last tokens).result = .ok ()) :
    ∃ d : Derivation (.nonterminal .statements), d.word = word ++ tokens ∧
      d.events = eventsOf pieces ++ (m.run 0 last tokens).events := by
  induction tokens generalizing m word pieces with
  | nil =>
    have ht : last.kind.terminal = .ok .endOfInput := by rw [hlast, TokenKind.terminal]
    obtain ⟨events, stack', pieces', verdict, hs⟩ :=
      exists_settles hbase h.stacked (Or.inl rfl) ht
    rw [Machine.run, Machine.finish_of_settle hm hs.settle_eq] at hok ⊢
    have hverdict : verdict = .accept := by
      by_contra hverdict
      simp only [hverdict, if_false, reduceCtorEq] at hok
    subst hverdict
    obtain ⟨htop, -⟩ := State.action_accept hs.action_eq
    obtain ⟨d, rfl⟩ := hs.stacked.eq_of_statements hbase htop
    refine ⟨d, ?_, ?_⟩
    · have hword := hs.word_eq.trans h.word_eq
      rw [wordOf_cons] at hword
      rw [List.append_nil]
      exact hword
    · have hevents := hs.events_eq
      rw [eventsOf_cons] at hevents
      exact hevents
  | cons token tokens ih =>
    have htokens : Visible tokens := fun token h => hvisible token (List.mem_cons_of_mem _ h)
    rcases h.feed_strict hbase hm (hvisible token List.mem_cons_self) with
      ⟨_, -, hfeed⟩ | ⟨_, _, _, _, _, -, -, -, hfeed⟩ | ⟨events, m', pieces', hm', h', hevents', hfeed⟩
    · rw [Machine.run_cons_error hfeed] at hok
      simp only [reduceCtorEq] at hok
    · rw [Machine.run_cons_error hfeed] at hok
      simp only [reduceCtorEq] at hok
    · rw [Machine.run_cons_ok hfeed] at hok ⊢
      obtain ⟨d, hword, hevents⟩ := ih htokens hm' h' hok
      refine ⟨d, ?_, ?_⟩
      · rw [hword, List.append_assoc]
        rfl
      · rw [hevents, hevents', List.append_assoc]

/-- **Completeness.**  A strict run over the rest of a word of the grammar comes to the end. -/
theorem run_ok_of_derivation (hlast : last.kind = .endOfInput) (hbase : Foundation .start base)
    (hm : m.discarding = none) (h : Reads base word m.stack pieces)
    {d : Derivation (.nonterminal .statements)} (hvisible : Visible d.word)
    (hword : d.word = word ++ tokens) : (m.run 0 last tokens).result = .ok () := by
  obtain ⟨final, htop, hfinal⟩ := statements_moves d hvisible hbase hlast
  have hstuck : Config.IsStuck ⟨final, [⟨_, d⟩], [last]⟩ := isStuck_of_statements hlast htop
  rw [hword, List.append_assoc] at hfinal
  induction tokens generalizing m word pieces with
  | nil =>
    have ht : last.kind.terminal = .ok .endOfInput := by rw [hlast, TokenKind.terminal]
    obtain ⟨events, stack', pieces', verdict, hs⟩ :=
      exists_settles hbase h.stacked (Or.inl rfl) ht
    have hverdict : ∀ next, verdict ≠ .shift next := by
      rintro next rfl
      exact State.action_endOfInput_ne_shift _ next hs.action_eq
    have heq := (h.halts hbase hs).eq_of_isStuck ht hverdict hfinal hstuck
    have hstatements : topState stack' = .statements := by
      rw [← (Config.mk.inj heq).1]
      exact htop
    have haccept : verdict = .accept := by
      have haction := hs.action_eq
      rw [hstatements] at haction
      cases verdict with
      | accept => rfl
      | shift next => exact absurd rfl (hverdict next)
      | refuse => exact absurd haction (by decide)
    rw [Machine.run, Machine.finish_of_settle hm hs.settle_eq, if_pos haccept]
  | cons token tokens ih =>
    obtain ⟨t, ht⟩ := d.exists_terminal (hword ▸ List.mem_append_right _ List.mem_cons_self)
    have htoken : token.span.isEmpty = false :=
      hvisible token (hword ▸ List.mem_append_right _ List.mem_cons_self)
    rcases h.feed_strict hbase hm htoken with
      ⟨mistake, hmistake, -⟩ | ⟨t', events, stack', pieces', verdict, ht', hs, hverdict, -⟩ |
      ⟨events, m', pieces', hm', h', -, hfeed⟩
    · rw [ht] at hmistake
      cases hmistake
    · rw [List.cons_append] at hfinal
      have heq := (h.halts hbase hs).eq_of_isStuck ht' hverdict hfinal hstuck
      have htokens := congrArg List.length (Config.mk.inj heq).2.2
      simp only [List.length_cons, List.length_append, List.length_nil] at htokens
      omega
    · rw [Machine.run_cons_ok hfeed]
      refine ih hm' h' ?_ ?_
      · rw [hword, List.append_assoc]
        rfl
      · rw [List.append_assoc]
        exact hfinal

end

/-- **Strict parsing accepts exactly the grammar.**  A text is read to its end if and only if none
of its tokens is a mistake and the grammar generates their terminals.  That is the case if and only
if the tokens have a derivation, which is then the only one, and what is handed over are exactly the
statements that it means, without any report. -/
theorem strict_parse (origin : Location) (source : String) :
    let tokens := (Scanner.startingAt origin source).tokens.1
    let parsed := parse 0 origin source
    (parsed.result = .ok () ↔
      (∀ token ∈ tokens, ∀ mistake, token.kind ≠ .invalid mistake) ∧
        terminalsOf tokens ∈ grammar.language) ∧
    (parsed.result = .ok () ↔
      ∃ d : Derivation (.nonterminal .statements), d.word = tokens ∧
        (∀ d' : Derivation (.nonterminal .statements), d'.word = tokens → d' = d) ∧
        parsed.events = d.content ∧ ∀ finding, .report finding ∉ parsed.events) := by
  intro tokens parsed
  have hvisible : Visible tokens := (Scanner.startingAt origin source).visible_tokens
  have hlast : (Scanner.startingAt origin source).tokens.2.kind = .endOfInput :=
    (Scanner.startingAt origin source).kind_last
  have hbase : Foundation .start (emptyStack origin) := .start rfl
  have hreads : Reads (emptyStack origin) [] (Machine.initial origin).stack [] := .base _
  have hsound : parsed.result = .ok () →
      ∃ d : Derivation (.nonterminal .statements), d.word = tokens ∧ d.events = parsed.events :=
    fun hok => exists_derivation_of_run hlast hbase hvisible rfl hreads hok
  have hcomplete : ∀ d : Derivation (.nonterminal .statements), d.word = tokens →
      parsed.result = .ok () :=
    fun d hword => run_ok_of_derivation hlast hbase rfl hreads (hword ▸ hvisible) hword
  constructor
  · rw [← exists_derivation_iff]
    constructor
    · intro hok
      obtain ⟨d, hword, -⟩ := hsound hok
      exact ⟨d, hword⟩
    · rintro ⟨d, hword⟩
      exact hcomplete d hword
  · constructor
    · intro hok
      obtain ⟨d, hword, hevents⟩ := hsound hok
      refine ⟨d, hword, fun d' hword' => ?_, hevents.symm, ?_⟩
      · exact statements_unique (hword' ▸ hvisible) (hword'.trans hword.symm)
      · rw [← hevents]
        exact fun finding => d.report_not_mem finding
    · rintro ⟨d, hword, -⟩
      exact hcomplete d hword

end CallGraph
