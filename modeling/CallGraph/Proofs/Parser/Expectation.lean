import CallGraph.Proofs.Parser.Salvage
import CallGraph.Proofs.Parser.Step
import CallGraph.Proofs.Parser.Strict

/-!
# What a strict parser expects

A strict parser stops at the first token that cannot stand where it does.  Its tables are smaller than
those of a canonical parser: a complete right-hand side is reduced whatever comes next.  So some
reductions may be made before a token is refused, but nothing is lost by them.

* `CanFollow` — the terminal can follow the terminals before it in a sentence of the grammar;
* `settle_of_refused` — the reductions before a token that is refused are made before any other one that
  is refused, too;
* `canFollow_of_action` — **soundness**: what the tables do not refuse can follow;
* `action_of_canFollow` — **completeness**: what can follow is not refused;
* `strict_error_explained` — so the error says exactly what is wrong, and where.
-/

namespace CallGraph

/-! ### Sentences and their beginnings -/

/-- The terminals are the beginning of a sentence. -/
def BeginsSentence (before : List Terminal) : Prop :=
  ∃ sentence ∈ grammar.language, before <+: sentence

/-- The terminal can follow the ones before it in a sentence, the end of the input being what follows a
whole sentence. -/
def CanFollow (before : List Terminal) (t : Terminal) : Prop :=
  ∃ sentence ∈ grammar.language, before ++ [t] <+: sentence ++ [.endOfInput]

/-- A terminal with which a sentence goes on can follow. -/
theorem canFollow_of_beginsSentence {before : List Terminal} {t : Terminal}
    (h : BeginsSentence (before ++ [t])) : CanFollow before t := by
  obtain ⟨sentence, hsentence, hprefix⟩ := h
  exact ⟨sentence, hsentence, hprefix.trans (List.prefix_append _ _)⟩

/-- A token of the given terminal at the location. -/
def Terminal.standInAt (t : Terminal) (here : Location) : Token :=
  ⟨t.standIn.kind, "", ⟨here, 1⟩⟩

theorem TokenKind.eq_endOfInput {kind : TokenKind} (h : kind.terminal = .ok .endOfInput) :
    kind = .endOfInput := by
  cases kind <;> simp only [terminal, reduceCtorEq, Except.ok.injEq] at h ⊢

theorem exists_terminal_of_mem_wordOf {pieces : List Piece} {token : Token}
    (h : token ∈ wordOf pieces) : ∃ t, token.kind.terminal = .ok t := by
  obtain ⟨piece, -, htoken⟩ := List.mem_flatMap.1 h
  exact piece.tree.exists_terminal htoken

/-- Terminals that make up a sentence with the ones of a word make up a derivation with the word. -/
theorem exists_derivation_of_sentence {word : List Token} (hvisible : Visible word)
    (hvalid : ∀ token ∈ word, ∃ t, token.kind.terminal = .ok t) {missing : List Terminal}
    (h : terminalsOf word ++ missing ∈ grammar.language) :
    ∃ d : Derivation (.nonterminal .statements), Visible d.word ∧
      d.word = word ++ missing.map Terminal.standIn := by
  rw [← terminalsOf_standIn missing, ← terminalsOf_append] at h
  have hvalid' := standIn_stands_behind hvalid missing
  obtain ⟨d, hword⟩ :=
    exists_derivation_iff.2 ⟨fun token htoken => exists_terminal_iff.1 (hvalid' token htoken), h⟩
  exact ⟨d, hword ▸ hvisible.append_standIn missing, hword⟩

/-- A token that can follow the word does so in some derivation, or else it is the end behind it. -/
theorem CanFollow.exists_derivation {word : List Token} {token : Token} {u : Terminal}
    (h : CanFollow (terminalsOf word) u) (hvisible : Visible word)
    (hvalid : ∀ token ∈ word, ∃ t, token.kind.terminal = .ok t)
    (hu : token.kind.terminal = .ok u) (htoken : token.span.isEmpty = false) :
    ∃ (d : Derivation (.nonterminal .statements)) (last : Token) (rest : List Token),
      Visible d.word ∧ last.kind = .endOfInput ∧ d.word ++ [last] = word ++ token :: rest := by
  obtain ⟨sentence, hsentence, rest, hrest⟩ := h
  rcases List.eq_nil_or_concat rest with rfl | ⟨missing, last, rfl⟩
  · -- The whole sentence has been read.
    rw [List.append_nil] at hrest
    obtain ⟨hword, hlast⟩ := List.append_inj' hrest rfl
    obtain rfl := List.singleton_inj.1 hlast
    rw [← hword, ← List.append_nil (terminalsOf word)] at hsentence
    obtain ⟨d, hd, heq⟩ := exists_derivation_of_sentence hvisible hvalid hsentence
    refine ⟨d, token, [], hd, TokenKind.eq_endOfInput hu, ?_⟩
    rw [heq, List.map_nil, List.append_nil]
  · rw [List.concat_eq_append, ← List.append_assoc] at hrest
    obtain ⟨rfl, -⟩ := List.append_inj' hrest rfl
    have hvisible' : Visible (word ++ [token]) :=
      hvisible.append fun other hother => (List.mem_singleton.1 hother) ▸ htoken
    have hvalid' : ∀ other ∈ word ++ [token], ∃ t, other.kind.terminal = .ok t := by
      intro other hother
      rcases List.mem_append.1 hother with hmem | hmem
      · exact hvalid other hmem
      · exact ⟨u, (List.mem_singleton.1 hmem) ▸ hu⟩
    have hterminals : terminalsOf (word ++ [token]) = terminalsOf word ++ [u] := by
      rw [terminalsOf_append, terminalsOf_cons hu]
      rfl
    rw [← hterminals] at hsentence
    obtain ⟨d, hd, heq⟩ := exists_derivation_of_sentence hvisible' hvalid' hsentence
    refine ⟨d, .endAt default, missing.map Terminal.standIn ++ [.endAt default], hd, rfl, ?_⟩
    rw [heq]
    simp only [List.append_assoc, List.cons_append, List.nil_append]

/-! ### The end of the input -/

mutual

/-- The end of the input is not in the word of a derivation. -/
theorem Derivation.endOfInput_not_mem : {x : Symbol} → (d : Derivation x) →
    x ≠ .terminal .endOfInput → .endOfInput ∉ terminalsOf d.word
  | _, .leaf token stands, hx => by
    rw [Derivation.word, terminalsOf_cons stands]
    exact fun hmem => hx (congrArg Symbol.terminal (List.mem_singleton.1 hmem).symm)
  | _, .branch rule children, _ => children.endOfInput_not_mem (by cases rule <;> decide)

/-- The end of the input is not in the words of derivations in a row. -/
theorem Forest.endOfInput_not_mem : {xs : List Symbol} → (f : Forest xs) →
    .terminal .endOfInput ∉ xs → .endOfInput ∉ terminalsOf f.word
  | _, .nil, _ => List.not_mem_nil
  | _, .cons first rest, hxs => by
    rw [Forest.word, terminalsOf_append, List.mem_append, not_or]
    exact ⟨first.endOfInput_not_mem (List.ne_of_not_mem_cons hxs).symm,
      rest.endOfInput_not_mem (List.not_mem_of_not_mem_cons hxs)⟩

end

/-- The end of the input can follow whole sentences only. -/
theorem canFollow_endOfInput {before : List Terminal} :
    CanFollow before .endOfInput ↔ before ∈ grammar.language := by
  refine ⟨fun ⟨sentence, hsentence, rest, hrest⟩ => ?_, fun h => ⟨before, h, List.prefix_refl _⟩⟩
  rcases List.eq_nil_or_concat rest with rfl | ⟨missing, last, rfl⟩
  · rw [List.append_nil] at hrest
    exact (List.append_inj' hrest rfl).1 ▸ hsentence
  · rw [List.concat_eq_append, ← List.append_assoc] at hrest
    obtain ⟨rfl, -⟩ := List.append_inj' hrest rfl
    rw [← List.nil_append (before ++ _ ++ _)] at hsentence
    obtain ⟨d, -, hword⟩ :=
      @exists_derivation_of_sentence [] (List.forall_mem_nil _) (List.forall_mem_nil _) _ hsentence
    refine absurd ?_ (d.endOfInput_not_mem Symbol.noConfusion)
    rw [hword, List.nil_append, terminalsOf_standIn]
    exact List.mem_append_left _ (List.mem_append_right _ List.mem_cons_self)

/-! ### The reductions before a token -/

/-- A state that refuses some terminal has no complete right-hand side. -/
theorem State.complete?_eq_none {s : State} {t : Terminal} (h : s.action t = .refuse) :
    s.complete? = none := by
  rw [action] at h
  cases hrule : s.complete? with
  | none => rfl
  | some rule =>
    rw [hrule] at h
    exact Action.noConfusion h

/-- The terminal is not refused in the state, and no reduction has been made there that would not have
been made before any other terminal.  A payload that is reduced before a semicolon is one that has been
left out on account of it. -/
def State.Admits (s : State) (t : Terminal) : Prop :=
  s.action t ≠ .refuse ∧ (s.complete? = none ∨ s = .payload ∧ t = .semicolon)

/-- A reduction that is made on account of a terminal leads to where it is admitted. -/
theorem State.Admits.goto? {s exposed next : State} {t : Terminal} {rule : Rule} (h : s.Admits t)
    (haction : s.action t = .reduce rule) (hnext : exposed.goto? rule.lhs = some next) :
    next.Admits t := by
  -- These are all reductions of that kind, and what they reduce leads to one state each.
  have hrule : (rule.lhs = .payload ∨ rule.lhs = .edge) ∧ t = .semicolon ∨
      rule.lhs = .assignmentList ∧ t = .rightBracket := by
    obtain ⟨-, hcomplete | ⟨rfl, rfl⟩⟩ := h
    · cases s <;> cases t <;> simp_all [action, complete?, consult] <;>
        simp [← haction, Rule.lhs]
    · obtain rfl : Rule.edge = rule := Action.reduce.inj haction
      exact .inl ⟨.inr rfl, rfl⟩
  rcases hrule with ⟨hlhs | hlhs, rfl⟩ | ⟨hlhs, rfl⟩ <;> rw [hlhs] at hnext
  · obtain rfl : payload = next := by
      cases exposed <;> simp_all [State.goto?]
    exact ⟨by decide, .inr ⟨rfl, rfl⟩⟩
  · obtain rfl : edge = next := by
      cases exposed <;> simp_all [State.goto?]
    exact ⟨by decide, .inl rfl⟩
  · obtain rfl : assignmentList = next := by
      cases exposed <;> simp_all [State.goto?]
    exact ⟨by decide, .inl rfl⟩

theorem exists_goto?_of_reduce {rule : Rule} {here : Location} {stack stack' : List Frame}
    {event : Option Event} (h : reduce rule here stack = .ok (stack', event)) :
    ∃ exposed : State, exposed.goto? rule.lhs = some (topState stack') := by
  obtain ⟨below, _, next, _, _, -, -, hgoto, rfl⟩ := exists_of_reduce h
  exact ⟨below.state, hgoto⟩

section

variable {t u : Terminal} {here : Location} {stack stack' : List Frame} {events : List Event}
  {verdict : Verdict}

/-- Where a terminal is admitted, it is not refused after all. -/
theorem ne_refuse_of_admits (h : (topState stack).Admits t)
    (hs : settle t here stack = (events, .ok (stack', verdict))) : verdict ≠ .refuse := by
  induction hrank : (topState stack).rank using Nat.strongRecOn generalizing stack events with
  | ind n ih =>
    by_cases hreduces : ∃ rule, (topState stack).action t = .reduce rule
    · obtain ⟨rule, haction⟩ := hreduces
      cases hreduce : reduce rule here stack with
      | error what =>
        rw [settle_of_inconsistent haction hreduce] at hs
        cases hs
      | ok out =>
        obtain ⟨lower, event⟩ := out
        rw [settle_of_reduce haction hreduce] at hs
        obtain ⟨exposed, hnext⟩ := exists_goto?_of_reduce hreduce
        have hlt : (topState lower).rank < n := hrank ▸ rank_reduce_lt haction hreduce
        exact ih _ hlt (h.goto? haction hnext) (Prod.ext rfl (Prod.mk.inj hs).2) rfl
    · obtain ⟨found, hfound⟩ := exists_verdict (not_exists.1 hreduces)
      rw [settle_of_verdict here hfound] at hs
      obtain ⟨-, rfl⟩ := Prod.mk.inj (Except.ok.inj (Prod.mk.inj hs).2)
      rintro rfl
      exact h.1 hfound

/-- **Nothing is lost by reductions before a token that is refused.**  They are made before any other
one that is refused behind them, too. -/
theorem settle_of_refused (hs : settle t here stack = (events, .ok (stack', .refuse)))
    (hu : (topState stack').action u = .refuse) :
    settle u here stack = (events, .ok (stack', .refuse)) := by
  induction hrank : (topState stack).rank using Nat.strongRecOn generalizing stack events with
  | ind n ih =>
    by_cases hreduces : ∃ rule, (topState stack).action t = .reduce rule
    · obtain ⟨rule, haction⟩ := hreduces
      cases hcomplete : (topState stack).complete? with
      | none =>
        refine absurd rfl (ne_refuse_of_admits ⟨?_, .inl hcomplete⟩ hs)
        rw [haction]
        exact Action.noConfusion
      | some other =>
        have hother : ∀ v, (topState stack).action v = .reduce other := fun v => by
          rw [State.action, hcomplete]
        cases hreduce : reduce other here stack with
        | error what =>
          rw [settle_of_inconsistent (hother t) hreduce] at hs
          cases hs
        | ok out =>
          obtain ⟨lower, event⟩ := out
          rw [settle_of_reduce (hother t) hreduce] at hs
          have hlt : (topState lower).rank < n := hrank ▸ rank_reduce_lt (hother t) hreduce
          have hrest := ih _ hlt (Prod.ext rfl (Prod.mk.inj hs).2) rfl
          rw [settle_of_reduce (hother u) hreduce, hrest, ← (Prod.mk.inj hs).1]
    · obtain ⟨found, hfound⟩ := exists_verdict (not_exists.1 hreduces)
      rw [settle_of_verdict here hfound] at hs
      obtain ⟨rfl, hstack⟩ := Prod.mk.inj hs
      obtain ⟨rfl, -⟩ := Prod.mk.inj (Except.ok.inj hstack)
      exact @settle_of_verdict _ _ .refuse here hu

end

/-! ### What the tables expect -/

/-- From the start nothing but statements leads on. -/
theorem State.next?_start {next : State} {x : Symbol} (h : start.next? x = some next) :
    x = .nonterminal .statements ∧ next = statements := by
  cases x with
  | terminal t => exact absurd (next?_terminal.1 h) Action.noConfusion
  | nonterminal n => cases n <;> simp_all [next?, State.goto?]

section

variable {base stack stack' : List Frame} {word : List Token}
  {pieces pieces' : List Piece} {events : List Event} {token : Token} {t u : Terminal}

/-- Unless nothing has been read, the complete statements are at the bottom. -/
theorem Stacked.exists_statements (h : Stacked base stack pieces) (hbase : Foundation .start base) :
    pieces = [] ∨ ∃ (base' : List Frame) (upper : List Piece)
      (d : Derivation (.nonterminal .statements)), Foundation .statements base' ∧
        Stacked base' stack upper ∧ pieces = upper ++ [⟨_, d⟩] := by
  induction h with
  | base => exact .inl rfl
  | @push stack pieces frame piece h hnext hholds ih =>
    right
    rcases ih with rfl | ⟨base', upper, d, hbase', hupper, rfl⟩
    · cases h with
      | base =>
        obtain ⟨x, d⟩ := piece
        rw [hbase.topState_eq] at hnext
        obtain ⟨rfl, hstate⟩ := State.next?_start hnext
        cases hbase with
        | start hbottom => exact ⟨_, [], d, .statements hstate hbottom, .base, rfl⟩
    · exact ⟨base', piece :: upper, d, hbase', hupper.push hnext hholds, rfl⟩

/-- **What is on the stack is the beginning of a sentence.** -/
theorem Stacked.exists_sentence (h : Stacked base stack pieces) (hbase : Foundation .start base) :
    ∃ (d : Derivation (.nonterminal .statements)) (missing : List Token),
      d.word = wordOf pieces ++ missing := by
  rcases h.exists_statements hbase with rfl | ⟨base', upper, d, hbase', hupper, rfl⟩
  · exact ⟨.branch .noStatements .nil, [], rfl⟩
  · obtain ⟨last, missing, -, hlast, -⟩ := exists_completion hbase' hupper
    refine ⟨.branch .moreStatements (.cons d (.cons last .nil)), missing, ?_⟩
    have hword : wordOf [⟨_, d⟩] = d.word := by
      rw [wordOf_cons]
      rfl
    show d.word ++ (last.word ++ []) = _
    rw [wordOf_append, hword, hlast, List.append_nil, List.append_assoc]

/-- What is on the stack where no right-hand side is complete can go on with what is not refused. -/
theorem Stacked.canFollow (h : Stacked base stack pieces) (hbase : Foundation .start base)
    (hcomplete : (topState stack).complete? = none) (hu : (topState stack).action u ≠ .refuse) :
    CanFollow (terminalsOf (wordOf pieces)) u := by
  have hstands := u.standIn_stands
  obtain ⟨events, stack', pieces', verdict, hs⟩ := exists_settles hbase h (.inl rfl) hstands
  have hverdict := ne_refuse_of_admits ⟨hu, .inl hcomplete⟩ hs.settle_eq
  cases verdict with
  | refuse => exact absurd rfl hverdict
  | accept =>
    -- The word is a sentence.
    obtain ⟨htop, rfl⟩ := State.action_accept hs.action_eq
    obtain ⟨d, rfl⟩ := hs.stacked.eq_of_statements hbase htop
    refine ⟨_, d.derives, ?_⟩
    rw [← hs.word_eq, wordOf_cons]
    exact List.prefix_refl _
  | shift next =>
    -- The token is taken, and what has been read then is still the beginning of a sentence.
    have hpush : Stacked base (.ofToken next u.standIn :: stack') (⟨_, .leaf _ hstands⟩ :: pieces') :=
      hs.stacked.push (State.next?_terminal.2 hs.action_eq)
        ⟨rfl, rfl, fun other hother => (List.mem_singleton.1 hother) ▸ rfl⟩
    obtain ⟨d, missing, hword⟩ := hpush.exists_sentence hbase
    refine canFollow_of_beginsSentence ⟨_, d.derives, terminalsOf missing, ?_⟩
    rw [hword, wordOf_cons, hs.word_eq, terminalsOf_append, terminalsOf_append]
    exact congrArg (_ ++ · ++ _) (terminalsOf_cons hstands []).symm

/-- **Soundness.**  Where a token has been refused behind the word, what is not refused can follow. -/
theorem canFollow_of_action (hbase : Foundation .start base) (h : Reads base word stack pieces)
    (hs : Settles .start base stack pieces token t events stack' pieces' .refuse)
    (hu : (topState stack').action u ≠ .refuse) : CanFollow (terminalsOf word) u := by
  rw [← h.word_eq, ← hs.word_eq]
  exact hs.stacked.canFollow hbase (State.complete?_eq_none hs.action_eq) hu

/-- **Completeness.**  Where a token has been refused behind the word, what can follow is not refused. -/
theorem action_of_canFollow (hbase : Foundation .start base) (h : Reads base word stack pieces)
    (hs : Settles .start base stack pieces token t events stack' pieces' .refuse)
    (hu : CanFollow (terminalsOf word) u) : (topState stack').action u ≠ .refuse := by
  intro hrefuse
  -- A token of this terminal in the same place would be refused behind the same reductions.
  let other := u.standInAt token.span.location
  have hstands : other.kind.terminal = .ok u := u.standIn_stands
  obtain ⟨events', stack'', pieces'', verdict, hsettles⟩ :=
    @exists_settles _ _ _ _ other _ hbase h.stacked (.inl rfl) hstands
  have hsame := hsettles.settle_eq.symm.trans (settle_of_refused hs.settle_eq hrefuse)
  obtain ⟨rfl, rfl⟩ := Prod.mk.inj (Except.ok.inj (Prod.mk.inj hsame).2)
  -- But there is a derivation in which it comes next, and reading it gets stuck at the end only.
  have hvisible : Visible word := h.word_eq ▸ h.stacked.visible
  have hvalid : ∀ read ∈ word, ∃ t, read.kind.terminal = .ok t := by
    intro read hread
    rw [← h.word_eq] at hread
    exact exists_terminal_of_mem_wordOf hread
  obtain ⟨d, last, rest, hd, hlast, hword⟩ := hu.exists_derivation hvisible hvalid hstands rfl
  obtain ⟨final, htop, hmoves⟩ := statements_moves d hd hbase hlast
  rw [hword] at hmoves
  have heq := (h.halts hbase hsettles).eq_of_isStuck hstands (fun next => Verdict.noConfusion) hmoves
    (isStuck_of_statements hlast htop)
  obtain ⟨hstack, -, htokens⟩ := Config.mk.inj heq
  obtain rfl : last = other := (List.cons.inj htokens).1
  obtain rfl := terminal_last hlast hstands
  rw [← hstack, htop] at hrefuse
  exact Action.noConfusion hrefuse

end

/-! ### Where a strict run stops -/

/-- **A strict run stops at a token that is refused**, if not at one that is a mistake.  It has read the
tokens before it. -/
theorem exists_refusal_of_run {last : Token} {base : List Frame} {tokens word : List Token} {m : Machine}
    {pieces : List Piece} {error : SyntaxError} (hlast : last.kind = .endOfInput)
    (hbase : Foundation .start base) (hvisible : Visible tokens)
    (hkinds : ∀ token ∈ tokens, token.kind ≠ .endOfInput) (hm : m.discarding = none)
    (h : Reads base word m.stack pieces) (herror : (m.run 0 last tokens).result = .error error) :
    (∃ mistake, error.reason = .lexical mistake) ∨
      ∃ before behind t stack pieces events stack' pieces',
        tokens ++ [last] = before ++ error.token :: behind ∧
        error.token.kind.terminal = .ok t ∧ Reads base (word ++ before) stack pieces ∧
        Settles .start base stack pieces error.token t events stack' pieces' .refuse ∧
        error.reason = .unexpected (topState stack').expected := by
  induction tokens generalizing m word pieces with
  | nil =>
    have ht : last.kind.terminal = .ok .endOfInput := by rw [hlast, TokenKind.terminal]
    obtain ⟨events, stack', pieces', verdict, hs⟩ := exists_settles hbase h.stacked (.inl rfl) ht
    rw [Machine.run, Machine.finish_of_settle hm hs.settle_eq] at herror
    cases verdict with
    | accept => cases herror
    | shift next => exact absurd hs.action_eq (State.action_endOfInput_ne_shift _ next)
    | refuse =>
      obtain rfl := Except.error.inj herror
      refine .inr ⟨[], [], _, m.stack, pieces, events, stack', pieces', rfl, ht, ?_, hs, rfl⟩
      rw [List.append_nil]
      exact h
  | cons token tokens ih =>
    have htokens : Visible tokens := fun token h => hvisible token (List.mem_cons_of_mem _ h)
    have hothers : ∀ token ∈ tokens, token.kind ≠ .endOfInput :=
      fun token h => hkinds token (List.mem_cons_of_mem _ h)
    rcases h.feed_strict hbase hm (hvisible token List.mem_cons_self) with
      ⟨mistake, -, hfeed⟩ | ⟨t, events, stack', pieces', verdict, ht, hs, hverdict, hfeed⟩ |
      ⟨events, m', pieces', hm', h', -, hfeed⟩
    · rw [Machine.run_cons_error hfeed] at herror
      obtain rfl := Except.error.inj herror
      exact .inl ⟨mistake, rfl⟩
    · rw [Machine.run_cons_error hfeed] at herror
      obtain rfl := Except.error.inj herror
      cases verdict with
      | shift next => exact absurd rfl (hverdict next)
      | accept =>
        obtain ⟨-, rfl⟩ := State.action_accept hs.action_eq
        exact absurd (TokenKind.eq_endOfInput ht) (hkinds token List.mem_cons_self)
      | refuse =>
        refine .inr ⟨[], tokens ++ [last], t, m.stack, pieces, events, stack', pieces', rfl, ht, ?_,
          hs, rfl⟩
        rw [List.append_nil]
        exact h
    · rw [Machine.run_cons_ok hfeed] at herror
      rcases ih htokens hothers hm' h' herror with
        hmistake | ⟨before, behind, t', stack, pieces, events, lower, left, hsplit, hrest⟩
      · exact .inl hmistake
      · refine .inr ⟨token :: before, behind, t', stack, pieces, events, lower, left, ?_, ?_⟩
        · rw [List.cons_append, hsplit, List.cons_append]
        · rw [← List.append_cons] at hrest
          exact hrest

theorem State.mem_expected {s : State} {t : Terminal} : t ∈ s.expected ↔ s.action t ≠ .refuse := by
  rw [State.expected, List.mem_filter, decide_eq_true_iff]
  exact and_iff_right t.mem_all

theorem SyntaxError.code_eq_unexpectedEnd {error : SyntaxError} {expected : List Terminal}
    (h : error.reason = .unexpected expected) :
    error.code = .unexpectedEnd ↔ error.token.kind = .endOfInput := by
  rw [code, h]
  by_cases hkind : error.token.kind = .endOfInput
  · simp [Token.isEnd, hkind]
  · simp [Token.isEnd, hkind]

/-- **A strict parser locates and explains its error exactly.**  If it fails with a token that is
unexpected or with an unexpected end, the tokens before this token are the beginning of a sentence, and
together with it they are not.  The terminals that are expected in its place are exactly those that can
follow what has been read, in the order in which they are listed; the end is one of them if what has been
read is a whole sentence.  An unexpected end is the one error that is located at the end of the input. -/
theorem strict_error_explained {origin : Location} {source : String} {error : SyntaxError}
    (herror : (parse 0 origin source).result = .error error)
    (hcode : error.code = .unexpectedToken ∨ error.code = .unexpectedEnd) :
    ∃ before behind t,
      (Scanner.startingAt origin source).tokens.1 ++ [(Scanner.startingAt origin source).tokens.2] =
        before ++ error.token :: behind ∧
      (∀ token ∈ before, ∀ mistake, token.kind ≠ .invalid mistake) ∧
      error.token.kind.terminal = .ok t ∧
      BeginsSentence (terminalsOf before) ∧
      ¬ CanFollow (terminalsOf before) t ∧
      ¬ BeginsSentence (terminalsOf before ++ [t]) ∧
      error.expected.Sublist Terminal.all ∧
      (∀ u, u ∈ error.expected ↔ CanFollow (terminalsOf before) u) ∧
      (.endOfInput ∈ error.expected ↔ terminalsOf before ∈ grammar.language) ∧
      (error.code = .unexpectedEnd ↔ error.token.kind = .endOfInput) := by
  have hvisible := (Scanner.startingAt origin source).visible_tokens
  have hlast := (Scanner.startingAt origin source).kind_last
  have hkinds := (Scanner.startingAt origin source).kind_ne_endOfInput
  set last := (Scanner.startingAt origin source).tokens.2
  have hbase : Foundation .start (emptyStack origin) := .start rfl
  have hreads : Reads (emptyStack origin) [] (Machine.initial origin).stack [] := .base _
  rcases exists_refusal_of_run hlast hbase hvisible hkinds rfl hreads herror with
    ⟨mistake, hreason⟩ |
    ⟨before, behind, t, stack, pieces, events, stack', pieces', hsplit, ht, hread, hs, hreason⟩
  · rw [SyntaxError.code, hreason] at hcode
    cases mistake <;> simp only [LexicalError.code, reduceCtorEq, or_self] at hcode
  rw [List.nil_append] at hread
  have hexpected : error.expected = (topState stack').expected := by
    rw [SyntaxError.expected, hreason]
  have hfollow : ∀ u, u ∈ error.expected ↔ CanFollow (terminalsOf before) u := by
    intro u
    rw [hexpected, State.mem_expected]
    exact ⟨canFollow_of_action hbase hread hs, action_of_canFollow hbase hread hs⟩
  have hrefused : ¬ CanFollow (terminalsOf before) t := by
    rw [← hfollow, hexpected, State.mem_expected, not_not]
    exact hs.action_eq
  refine ⟨before, behind, t, hsplit, fun token htoken => ?_, ht, ?_, hrefused,
    fun hbegins => hrefused (canFollow_of_beginsSentence hbegins), ?_, hfollow,
    (hfollow _).trans canFollow_endOfInput, SyntaxError.code_eq_unexpectedEnd hreason⟩
  · rw [← hread.word_eq] at htoken
    exact exists_terminal_iff.1 (exists_terminal_of_mem_wordOf htoken)
  · obtain ⟨d, missing, hd⟩ := hread.stacked.exists_sentence hbase
    refine ⟨_, d.derives, terminalsOf missing, ?_⟩
    rw [hd, hread.word_eq, terminalsOf_append]
  · rw [hexpected]
    exact List.filter_sublist

/-- A bracket too many behind a node, which has been read completely before the bracket is refused. -/
theorem strict_error_explained_behind_node :
    ∃ error, (parse 0 .start ".a [] ]").result = .error error ∧ error.code = .unexpectedToken ∧
      error.expected = [.dot, .identifier, .arrow, .semicolon, .endOfInput] ∧
      ∃ before t, error.token.kind.terminal = .ok t ∧ BeginsSentence (terminalsOf before) ∧
        ¬ CanFollow (terminalsOf before) t ∧ CanFollow (terminalsOf before) .endOfInput := by
  let found : SyntaxError := ⟨⟨.rightBracket, "]", ⟨⟨1, 7, 6⟩, 1⟩⟩,
    .unexpected [.dot, .identifier, .arrow, .semicolon, .endOfInput]⟩
  have herror : (parse 0 .start ".a [] ]").result = .error found := by decide +kernel
  obtain ⟨before, behind, t, -, -, ht, hbegins, hrefused, -, -, hfollow, -, -⟩ :=
    strict_error_explained herror (.inl rfl)
  exact ⟨found, herror, rfl, rfl, before, t, ht, hbegins, hrefused,
    (hfollow .endOfInput).1 (by decide)⟩

end CallGraph
