import CallGraph.Proofs.Parser.Run
import CallGraph.Proofs.Parser.Salvage

/-!
# Recovery

A parser with a budget recovers from mistakes.  It hands over exactly the statements that can be
salvaged from the tokens that are no mistakes themselves.

* `Awaits` — the parser has read the beginning of a statement, or a complete one that is handed over
  before the next token, whatever it is;
* `feed_awaits` — the step: each token is taken or refused as `Salvages` has it;
* `run_salvages` — the run;
* `parse_salvages` — the statements handed over are those salvaged, for every text and budget.
-/

namespace CallGraph

/-! ### Standing before a token -/

/-- The parser has read the tokens `begun` of a statement.  Whatever token comes next, the events
are handed over before it. -/
def Awaits (stack : List Frame) (begun : List Token) (events : List Event) : Prop :=
  ∀ (token : Token) (t : Terminal), token.kind.terminal = .ok t →
    ∃ base stack' pieces verdict, Halts .statements base begun token t stack' pieces verdict ∧
      settle t token.span.location stack = (events, .ok (stack', verdict))

/-- Where all reductions lead between two statements, the next statement is awaited. -/
theorem awaits_of_settle {stack : List Frame} {events : List Event}
    (h : ∀ (t : Terminal) (here : Location), ∃ base verdict, Foundation .statements base ∧
      State.statements.action t = verdict.action ∧
        settle t here stack = (events, .ok (base, verdict))) : Awaits stack [] events := by
  intro token t _
  obtain ⟨base, verdict, hbase, hverdict, hsettle⟩ := h t token.span.location
  refine ⟨base, base, [], verdict, ?_, hsettle⟩
  exact {
    foundation := hbase
    stacked := .base
    word_eq := rfl
    isOpen := Or.inr (by rw [hbase.topState_eq]; decide)
    action_eq := by rw [hbase.topState_eq]; exact hverdict
    moves := fun _ => .refl }

theorem Foundation.awaits {base : List Frame} (hbase : Foundation .statements base) :
    Awaits base [] [] := by
  apply awaits_of_settle
  intro t here
  obtain ⟨verdict, hverdict, hsettle⟩ := settle_statements hbase t here
  exact ⟨base, verdict, hbase, hverdict, hsettle⟩

/-- A parser that has read nothing awaits a statement. -/
theorem awaits_initial (origin : Location) : Awaits (emptyStack origin) [] [] := by
  apply awaits_of_settle
  intro t here
  let base : List Frame := [⟨.statements, .nothing, .empty here⟩, ⟨.start, .nothing, .empty origin⟩]
  have hbase : Foundation .statements base := .statements rfl rfl
  have haction : (topState (emptyStack origin)).action t = .reduce .noStatements := rfl
  have hreduce : reduce .noStatements here (emptyStack origin) = .ok (base, none) := rfl
  obtain ⟨verdict, hverdict, hsettle⟩ := settle_statements hbase t here
  refine ⟨base, verdict, hbase, hverdict, ?_⟩
  rw [settle_of_reduce haction hreduce, hsettle]
  rfl

section

variable {base stack : List Frame} {pieces : List Piece} {begun : List Token} {token : Token}
  {t : Terminal} {verdict : Verdict} {next : State}

/-- A statement that is not complete is awaited to go on. -/
theorem Reads.awaits (h : Reads base begun stack pieces) (hbase : Foundation .statements base)
    (hdistance : 0 < (topState stack).distance) : Awaits stack begun [] := by
  intro token t ht
  obtain ⟨events, stack', pieces', verdict, hs⟩ :=
    exists_settles hbase h.stacked (Or.inr hdistance) ht
  have hhalts := h.halts hbase hs
  have hincomplete : ∀ {s : State}, 0 < s.distance → s ≠ .statement := by
    rintro s hs rfl
    exact absurd hs (by decide)
  have hdistance' : 0 < (topState stack').distance := by
    rcases hs.isOpen with hstart | hpos
    · simp only [reduceCtorEq] at hstart
    · exact hpos
  have hevents := hs.events_eq
  rw [eventsOf_eq_nil h.stacked hbase (hincomplete hdistance),
    eventsOf_eq_nil hs.stacked hbase (hincomplete hdistance')] at hevents
  refine ⟨base, stack', pieces', verdict, hhalts, ?_⟩
  rw [hs.settle_eq, show events = [] from hevents.symm]

/-- A statement that is complete is handed over, and the next one is awaited. -/
theorem Reads.awaits_complete (h : Reads base begun stack pieces)
    (hbase : Foundation .statements base) (htop : topState stack ≠ .statement)
    (hdistance : (topState stack).distance = 0) :
    ∃ d : Derivation (.nonterminal .statement), d.word = begun ∧ Awaits stack [] d.events := by
  obtain ⟨d, _, _, _, hword, -⟩ := exists_closing hbase h.stacked hdistance .endOfInput default
  refine ⟨d, hword.trans h.word_eq, awaits_of_settle fun t here => ?_⟩
  obtain ⟨d', events, base', verdict, hword', hevents, hbase', hverdict, hsettle⟩ :=
    exists_closing hbase h.stacked hdistance t here
  have hvisible : Visible d'.word := by
    rw [hword']
    exact h.stacked.visible
  have hsame : d'.word = d.word ++ [] := by rw [List.append_nil, hword, hword']
  obtain ⟨-, rfl⟩ := statement_unique hvisible hsame
  rw [eventsOf_eq_nil h.stacked hbase htop] at hevents
  refine ⟨base', verdict, hbase', hverdict, ?_⟩
  rw [hsettle, show d.events = events from hevents]

/-- **A token that is taken** completes the statement or goes on with it. -/
theorem Halts.awaits_of_shift (h : Halts .statements base begun token t stack pieces (.shift next))
    (ht : token.kind.terminal = .ok t) (hvisible : token.span.isEmpty = false) :
    (∃ d : Derivation (.nonterminal .statement), d.word = begun ++ [token] ∧
      Awaits (.ofToken next token :: stack) [] d.events) ∨
    (Viable (begun ++ [token]) ∧
      (∀ d : Derivation (.nonterminal .statement), d.word ≠ begun ++ [token]) ∧
      Awaits (.ofToken next token :: stack) (begun ++ [token]) []) := by
  have hreads := h.shift ht hvisible
  by_cases hdistance : next.distance = 0
  · have htop : next ≠ .statement := by
      rintro rfl
      obtain ⟨-, hsymbol⟩ := State.eq_statements_of_next? (State.next?_terminal.2 h.action_eq)
      simp only [reduceCtorEq] at hsymbol
    exact Or.inl (hreads.awaits_complete h.foundation htop hdistance)
  · -- Some completion is missing tokens, so by uniqueness nothing is complete without them.
    obtain ⟨d, missing, hvisible', hword, hlength⟩ :=
      exists_completion h.foundation hreads.stacked
    rw [hreads.word_eq] at hword
    refine Or.inr ⟨viable_of_word hword, fun d' hword' => ?_, ?_⟩
    · rw [← hword'] at hword
      obtain ⟨rfl, -⟩ := statement_unique hvisible' hword
      exact hdistance hlength.symm
    · exact hreads.awaits h.foundation (Nat.pos_of_ne_zero hdistance)

/-- **A token that is not taken** can neither go on with the statement nor start one. -/
theorem Halts.not_viable (h : Halts .statements base begun token t stack pieces verdict)
    (ht : token.kind.terminal = .ok t) (hvisible : token.span.isEmpty = false)
    (hverdict : ∀ next, verdict ≠ .shift next) (hvalid : ∀ other ∈ begun, ∃ u,
      other.kind.terminal = .ok u) : ¬ Viable (begun ++ [token]) := by
  intro hviable
  -- A statement that goes on with the token would be read to its end.  Its moves and those that end
  -- before the token start at the same configuration, so both would get stuck at the same one.
  have hvisible' : Visible (begun ++ [token]) := by
    rw [← h.word_eq]
    exact h.stacked.visible.append fun other hother => (List.mem_singleton.1 hother) ▸ hvisible
  have hvalid' : ∀ other ∈ begun ++ [token], ∃ u, other.kind.terminal = .ok u := by
    intro other hother
    rcases List.mem_append.1 hother with hbegun | hlast
    · exact hvalid other hbegun
    · exact ⟨t, (List.mem_singleton.1 hlast) ▸ ht⟩
  obtain ⟨d, missing, hd, hword⟩ := hviable.exists_word hvisible' hvalid'
  let last := Token.endAt default
  have hnext : (topState base).next? (.nonterminal .statement) = some .statement := by
    rw [h.foundation.topState_eq]
    rfl
  obtain ⟨frame, hstate, -, hmoves⟩ :=
    d.moves hd h.foundation.ne_nil [] hnext (rfl : last.kind.terminal = .ok .endOfInput) rfl []
  have hahead : d.word ++ [last] = begun ++ token :: (missing ++ [last]) := by
    rw [hword]
    simp only [List.append_assoc, List.cons_append, List.nil_append]
  rw [hahead] at hmoves
  have heq := h.eq_of_isStuck ht hverdict hmoves (isStuck_statement hstate)
  have hlength := congrArg List.length (Config.mk.inj heq).2.2
  simp only [List.length_cons, List.length_append, List.length_nil] at hlength
  omega

end

/-! ### Unwinding -/

/-- Unwinding drops the statement that has begun and nothing else. -/
theorem Stacked.unwind_eq {base stack : List Frame} {pieces : List Piece}
    (h : Stacked base stack pieces) (hbase : Foundation .statements base) (here : Location) :
    unwind here stack = base := by
  induction h with
  | base =>
    cases hbase with
    | statements hbetween _ => exact unwind_of_statements hbetween here _
  | @push stack pieces frame piece h hnext _ ih =>
    have hstate : frame.state ≠ .statements := by
      intro hstatements
      rw [hstatements] at hnext
      obtain ⟨hstart, -⟩ := State.eq_start_of_next? hnext
      exact h.topState_ne_start hbase hstart
    rw [unwind_cons hstate (h.ne_nil hbase.ne_nil), ih]

/-! ### Handing over -/

/-- Whether the event is a statement and not a report. -/
def Event.isStatement : Event → Bool
  | .report _ => false
  | _ => true

/-- The statements among the events. -/
def statementsOf (events : List Event) : List Event := events.filter Event.isStatement

/-- The tokens that are no mistakes. -/
def soundTokens (tokens : List Token) : List Token :=
  tokens.filter fun token => token.terminal?.isSome

theorem statementsOf_append (events others : List Event) :
    statementsOf (events ++ others) = statementsOf events ++ statementsOf others :=
  List.filter_append _ _

/-- A derivation hands over statements only. -/
theorem statementsOf_events {x : Symbol} (d : Derivation x) : statementsOf d.events = d.events := by
  rw [statementsOf, List.filter_eq_self]
  intro event hevent
  cases event with
  | report finding => exact absurd hevent (d.report_not_mem finding)
  | _ => rfl

theorem endsDiscarding_iff {token : Token} {t : Terminal} (ht : token.kind.terminal = .ok t) :
    endsDiscarding t = true ↔ token.IsMark := by
  obtain ⟨kind, text, span⟩ := token
  unfold Token.IsMark
  cases kind <;> simp only [TokenKind.terminal, Except.ok.injEq, reduceCtorEq] at ht <;> subst ht <;>
    simp [endsDiscarding]

theorem soundTokens_cons_ok {token : Token} {t : Terminal} (ht : token.kind.terminal = .ok t)
    (tokens : List Token) : soundTokens (token :: tokens) = token :: soundTokens tokens := by
  rw [soundTokens, List.filter_cons_of_pos (by rw [terminal?_eq_some.2 ht]; rfl)]
  rfl

theorem soundTokens_cons_error {token : Token} {mistake : LexicalError}
    (h : token.kind.terminal = .error mistake) (tokens : List Token) :
    soundTokens (token :: tokens) = soundTokens tokens := by
  have hnone : token.terminal? = none := by
    rw [Token.terminal?, h]
    rfl
  rw [soundTokens, List.filter_cons_of_neg (by rw [hnone]; decide)]
  rfl

/-! ### One token -/

/-- What becomes of a token behind the tokens `begun` of a statement. -/
inductive Reaction (begun : List Token) (token : Token) (m : Machine) : Prop where
  /-- It completes the statement, which is handed over before the next token. -/
  | complete (d : Derivation (.nonterminal .statement)) : d.word = begun ++ [token] →
    m.discarding = none → Awaits m.stack [] d.events → Reaction begun token m
  /-- It goes on with the statement. -/
  | goOn : Viable (begun ++ [token]) →
    (∀ d : Derivation (.nonterminal .statement), d.word ≠ begun ++ [token]) →
    m.discarding = none → Awaits m.stack (begun ++ [token]) [] → Reaction begun token m
  /-- It can do neither: the statement is dropped, and tokens are discarded unless it is a mark. -/
  | discard : ¬ Viable (begun ++ [token]) → Foundation .statements m.stack →
    (m.discarding = none ↔ token.IsMark) → Reaction begun token m

section

variable {budget : Nat} {m m' : Machine} {begun : List Token} {events handed : List Event}
  {token last : Token} {t : Terminal}

/-- Recovery unwinds the stack and hands over no statement. -/
theorem Machine.recover_ok (h : m.recover budget token t = (handed, .ok m')) :
    m'.stack = unwind token.span.location m.stack ∧
      (m'.discarding = none ↔ endsDiscarding t = true) ∧ statementsOf handed = [] := by
  have hdiscarding : (m.unwound token t).discarding = none ↔ endsDiscarding t = true := by
    unfold unwound
    by_cases hends : endsDiscarding t = true <;> simp [hends]
  rcases m.recover_cases budget token t with ⟨hcase, -⟩ | ⟨hcase, -⟩ | ⟨hcase, -⟩ <;>
    rw [hcase] at h
  · cases h
  · obtain ⟨rfl, hm'⟩ := Prod.mk.inj h
    obtain rfl := Except.ok.inj hm'
    exact ⟨rfl, hdiscarding, rfl⟩
  · obtain ⟨rfl, hm'⟩ := Prod.mk.inj h
    obtain rfl := Except.ok.inj hm'
    exact ⟨rfl, hdiscarding, rfl⟩

/-- **One token.**  The awaited events are handed over, and the token is taken or refused as the
grammar has it. -/
theorem feed_awaits (hm : m.discarding = none) (h : Awaits m.stack begun events)
    (hevents : statementsOf events = events)
    (hvalid : ∀ other ∈ begun, ∃ u, other.kind.terminal = .ok u)
    (ht : token.kind.terminal = .ok t) (hvisible : token.span.isEmpty = false)
    (hfeed : m.feed budget token = (handed, .ok m')) :
    statementsOf handed = events ∧ Reaction begun token m' := by
  obtain ⟨base, stack', pieces, verdict, hhalts, hsettle⟩ := h token t ht
  by_cases hverdict : ∃ next, verdict = .shift next
  · obtain ⟨next, rfl⟩ := hverdict
    rw [Machine.feed_shift hm ht hsettle] at hfeed
    obtain ⟨rfl, hm'⟩ := Prod.mk.inj hfeed
    obtain rfl := Except.ok.inj hm'
    refine ⟨hevents, ?_⟩
    rcases hhalts.awaits_of_shift ht hvisible with ⟨d, hword, hnext⟩ | ⟨hviable, hopen, hnext⟩
    · exact .complete d hword hm hnext
    · exact .goOn hviable hopen hm hnext
  · have hrefused : ∀ next, verdict ≠ .shift next := not_exists.1 hverdict
    rw [Machine.feed_refused hm ht hsettle hrefused] at hfeed
    obtain ⟨rfl, hrecover⟩ := Prod.mk.inj hfeed
    obtain ⟨hstack, hdiscarding, hreports⟩ := Machine.recover_ok (Prod.ext rfl hrecover)
    refine ⟨?_, .discard (hhalts.not_viable ht hvisible hrefused hvalid) ?_ ?_⟩
    · rw [statementsOf_append, hevents, hreports, List.append_nil]
    · rw [hstack, hhalts.stacked.unwind_eq hhalts.foundation]
      exact hhalts.foundation
    · exact hdiscarding.trans (endsDiscarding_iff ht)

/-- A token that is a mistake changes nothing. -/
theorem feed_mistake {mistake : LexicalError} (h : token.kind.terminal = .error mistake)
    (hfeed : m.feed budget token = (handed, .ok m')) : m' = m ∧ statementsOf handed = [] := by
  rw [Machine.feed_of_mistake h] at hfeed
  split at hfeed
  · simp only [Prod.mk.injEq, reduceCtorEq, and_false] at hfeed
  · obtain ⟨rfl, hm⟩ := Prod.mk.inj hfeed
    exact ⟨(Except.ok.inj hm).symm, rfl⟩

/-- While tokens are discarded, nothing is handed over, and only a mark is noticed. -/
theorem feed_discarding (hm : m.discarding ≠ none) (ht : token.kind.terminal = .ok t)
    (hfeed : m.feed budget token = (handed, .ok m')) :
    handed = [] ∧ m'.stack = m.stack ∧ (m'.discarding = none ↔ token.IsMark) := by
  obtain ⟨error, hdiscarding⟩ := Option.ne_none_iff_exists'.1 hm
  rw [Machine.feed_of_discarding hdiscarding ht] at hfeed
  obtain ⟨rfl, hm'⟩ := Prod.mk.inj hfeed
  obtain rfl := Except.ok.inj hm'
  rw [← endsDiscarding_iff ht]
  by_cases hends : endsDiscarding t = true
  · simp only [hends, if_true, and_self]
  · simp only [hends, if_false, Bool.false_eq_true, hdiscarding, reduceCtorEq, and_self]

/-- The end of the input comes between two statements. -/
theorem finish_awaits (hlast : last.kind = .endOfInput) (h : Awaits m.stack begun events)
    (hm : m.discarding = none) (hok : (m.finish last).2 = .ok ()) :
    begun = [] ∧ (m.finish last).1 = events := by
  have ht : last.kind.terminal = .ok .endOfInput := by rw [hlast, TokenKind.terminal]
  obtain ⟨base, stack', pieces, verdict, hhalts, hsettle⟩ := h last .endOfInput ht
  rw [Machine.finish_of_settle hm hsettle] at hok ⊢
  have haccept : verdict = .accept := by
    by_contra hverdict
    simp only [hverdict, if_false, reduceCtorEq] at hok
  subst haccept
  obtain ⟨htop, -⟩ := State.action_accept hhalts.action_eq
  obtain ⟨-, rfl⟩ := hhalts.stacked.eq_base hhalts.foundation htop
  exact ⟨hhalts.word_eq.symm, rfl⟩

end

/-! ### The run -/

section

variable {budget : Nat} {last : Token}

/-- A run that comes to the end has taken its first token. -/
theorem exists_feed_ok {m : Machine} {token : Token} {rest : List Token}
    (hok : (m.run budget last (token :: rest)).result = .ok ()) :
    ∃ handed m', m.feed budget token = (handed, .ok m') ∧
      (m'.run budget last rest).result = .ok () ∧
      (m.run budget last (token :: rest)).events = handed ++ (m'.run budget last rest).events := by
  cases hfeed : m.feed budget token with
  | mk handed result =>
    cases result with
    | error error =>
      rw [Machine.run_cons_error hfeed] at hok
      simp only [reduceCtorEq] at hok
    | ok m' =>
      rw [Machine.run_cons_ok hfeed] at hok ⊢
      exact ⟨handed, m', rfl, hok, rfl⟩

/-- **Recovery.**  A run that comes to the end hands over what can be salvaged from the tokens that
are no mistakes.  If it starts while tokens are being discarded, that goes for the tokens behind the
first mark. -/
theorem run_salvages (hlast : last.kind = .endOfInput) {tokens : List Token}
    (hvisible : Visible tokens) :
    (∀ (m : Machine) (begun : List Token) (events : List Event), m.discarding = none →
      Awaits m.stack begun events → statementsOf events = events →
      (∀ other ∈ begun, ∃ u, other.kind.terminal = .ok u) →
      (m.run budget last tokens).result = .ok () →
      ∃ segments, Salvages begun (soundTokens tokens) segments ∧
        statementsOf (m.run budget last tokens).events =
          events ++ segments.flatMap Segment.events) ∧
    (∀ m : Machine, m.discarding ≠ none → Foundation .statements m.stack →
      (m.run budget last tokens).result = .ok () →
      ∃ skipped behind segments, Discards (soundTokens tokens) skipped behind ∧
        Salvages [] behind segments ∧
        statementsOf (m.run budget last tokens).events = segments.flatMap Segment.events) := by
  -- The two halves call each other: discarding starts at a refused token and ends at a mark.
  induction tokens with
  | nil =>
    constructor
    · intro m begun events hm hawaits hevents _ hok
      obtain ⟨rfl, hfinish⟩ := finish_awaits hlast hawaits hm hok
      refine ⟨[], .done, ?_⟩
      rw [Machine.run, List.flatMap_nil, List.append_nil]
      exact (congrArg statementsOf hfinish).trans hevents
    · intro m hm _ hok
      obtain ⟨error, hdiscarding⟩ := Option.ne_none_iff_exists'.1 hm
      rw [Machine.run, Machine.finish, hdiscarding] at hok
      simp only [reduceCtorEq] at hok
  | cons token tokens ih =>
    have htoken := hvisible token List.mem_cons_self
    obtain ⟨ih, ihDiscarding⟩ := ih fun token h => hvisible token (List.mem_cons_of_mem _ h)
    constructor
    · intro m begun events hm hawaits hevents hvalid hok
      obtain ⟨handed, m', hfeed, hok', hrun⟩ := exists_feed_ok hok
      rw [hrun, statementsOf_append]
      cases ht : token.kind.terminal with
      | error mistake =>
        obtain ⟨rfl, hhanded⟩ := feed_mistake ht hfeed
        rw [soundTokens_cons_error ht, hhanded]
        exact ih m' begun events hm hawaits hevents hvalid hok'
      | ok t =>
        have hvalid' : ∀ other ∈ begun ++ [token], ∃ u, other.kind.terminal = .ok u :=
          List.forall_mem_append.2 ⟨hvalid, List.forall_mem_singleton.2 ⟨t, ht⟩⟩
        obtain ⟨hhanded, hreaction⟩ := feed_awaits hm hawaits hevents hvalid ht htoken hfeed
        rw [soundTokens_cons_ok ht, hhanded]
        cases hreaction with
        | complete d hword hm' hnext =>
          obtain ⟨segments, hsalvages, hrest⟩ :=
            ih m' [] d.events hm' hnext (statementsOf_events d) (List.forall_mem_nil _) hok'
          exact ⟨_, .complete hword hsalvages, by rw [hrest]; rfl⟩
        | goOn hviable hopen hm' hnext =>
          obtain ⟨segments, hsalvages, hrest⟩ := ih m' _ [] hm' hnext rfl hvalid' hok'
          exact ⟨segments, .goOn hviable hopen hsalvages, by rw [hrest]; rfl⟩
        | discard hviable hbase hdiscarding =>
          by_cases hmark : token.IsMark
          · obtain ⟨segments, hsalvages, hrest⟩ :=
              ih m' [] [] (hdiscarding.2 hmark) hbase.awaits rfl (List.forall_mem_nil _) hok'
            exact ⟨_, .discard hviable (.mark hmark) hsalvages, by rw [hrest]; rfl⟩
          · have hm' : m'.discarding ≠ none := fun h => hmark (hdiscarding.1 h)
            obtain ⟨skipped, behind, segments, hdiscards, hsalvages, hrest⟩ :=
              ihDiscarding m' hm' hbase hok'
            exact ⟨_, .discard hviable (.skip hmark hdiscards) hsalvages, by rw [hrest]; rfl⟩
    · intro m hm hbase hok
      obtain ⟨handed, m', hfeed, hok', hrun⟩ := exists_feed_ok hok
      rw [hrun, statementsOf_append]
      cases ht : token.kind.terminal with
      | error mistake =>
        obtain ⟨rfl, hhanded⟩ := feed_mistake ht hfeed
        rw [soundTokens_cons_error ht, hhanded]
        exact ihDiscarding m' hm hbase hok'
      | ok t =>
        obtain ⟨rfl, hstack, hdiscarding⟩ := feed_discarding hm ht hfeed
        rw [← hstack] at hbase
        rw [soundTokens_cons_ok ht]
        by_cases hmark : token.IsMark
        · obtain ⟨segments, hsalvages, hrest⟩ :=
            ih m' [] [] (hdiscarding.2 hmark) hbase.awaits rfl (List.forall_mem_nil _) hok'
          exact ⟨[token], _, segments, .mark hmark, hsalvages, hrest⟩
        · have hm' : m'.discarding ≠ none := fun h => hmark (hdiscarding.1 h)
          obtain ⟨skipped, behind, segments, hdiscards, hsalvages, hrest⟩ :=
            ihDiscarding m' hm' hbase hok'
          exact ⟨token :: skipped, behind, segments, .skip hmark hdiscards, hsalvages, hrest⟩

/-- What is handed over can be salvaged, whatever the budget. -/
theorem exists_salvages_of_ok {origin : Location} {source : String}
    (hok : (parse budget origin source).result = .ok ()) :
    ∃ segments, Salvages [] (soundTokens (Scanner.startingAt origin source).tokens.1) segments ∧
      statementsOf (parse budget origin source).events = segments.flatMap Segment.events := by
  have hlast := (Scanner.startingAt origin source).kind_last
  have hvisible := (Scanner.startingAt origin source).visible_tokens
  exact (run_salvages hlast hvisible).1 _ [] [] rfl (awaits_initial _) rfl (List.forall_mem_nil _) hok

end

/-- **Recovery delivers exactly the complete statements outside the discarded regions.**  If a text
is read to its end under a budget, its tokens without the mistakes among them are cut in exactly one
way into complete statements and discarded regions; each token belongs to one of them.  The
statements handed over are those of the complete ones, in their order.  Neither the budget nor how
many mistakes were passed over in silence makes a difference. -/
theorem parse_salvages {budget : Nat} {origin : Location} {source : String}
    (hok : (parse budget origin source).result = .ok ()) :
    let tokens := soundTokens (Scanner.startingAt origin source).tokens.1
    ∃ segments, Salvages [] tokens segments ∧
      (∀ segments', Salvages [] tokens segments' → segments' = segments) ∧
      segments.flatMap Segment.word = tokens ∧
      statementsOf (parse budget origin source).events = segments.flatMap Segment.events ∧
      ∀ budget', (parse budget' origin source).result = .ok () →
        statementsOf (parse budget' origin source).events = segments.flatMap Segment.events := by
  intro tokens
  have hvisible : Visible ([] ++ tokens) := fun token htoken =>
    (Scanner.startingAt origin source).visible_tokens token (List.mem_filter.1 htoken).1
  obtain ⟨segments, hsalvages, hevents⟩ := exists_salvages_of_ok hok
  refine ⟨segments, hsalvages, fun _ h => hsalvages.unique h hvisible, hsalvages.flatMap_word,
    hevents, ?_⟩
  intro budget' hok'
  obtain ⟨segments', hsalvages', hevents'⟩ := exists_salvages_of_ok hok'
  rw [hevents', hsalvages.unique hsalvages' hvisible]

/-- A text with two mistakes, one of them within a discarded region. -/
theorem parse_salvages_around_mistakes :
    let source := "a b $ ] c -> d ;"
    (parse 1 .start source).result = .ok () ∧
      ∃ segments, Salvages [] (soundTokens (Scanner.startingAt .start source).tokens.1) segments ∧
        statementsOf (parse 1 .start source).events = segments.flatMap Segment.events := by
  intro source
  have hok : (parse 1 .start source).result = .ok () := by decide +kernel
  obtain ⟨segments, hsalvages, -, -, hevents, -⟩ := parse_salvages hok
  exact ⟨hok, segments, hsalvages, hevents⟩

end CallGraph
