import CallGraph.Proofs.Parser.Run

/-!
# The parser step by step

`Machine.run` deals with one token at a time, all reductions before it included.  Here the same run is
told in smaller steps: one reduction, one token that is taken, one recovery, one token that is passed
over.

* `Machine.Step`, `Machine.Ends` — one step, and where no step is left;
* `step_or_ends` — **progress**: a parser takes a step or comes to an end;
* `Machine.Step.closer` — a step takes a token away or lowers the rank of the state on top;
* `Machine.Steps.run_eq`, `exists_steps_of_run` — the steps are those of the run.
-/

namespace CallGraph

/-! ### One step -/

/-- One step of the parser, with what is handed over.  The tokens are the ones ahead; `last` is the end
token behind them. -/
inductive Machine.Step (budget : Nat) (last : Token) :
    Machine → List Token → List Event → Machine → List Token → Prop where
  /-- A token that is a mistake is reported and passed over. -/
  | mistake {m : Machine} {token : Token} {rest : List Token} {what : LexicalError} :
    token.kind.terminal = .error what → budget ≠ 0 →
    Machine.Step budget last m (token :: rest)
      [.report (SyntaxError.toDiagnostic ⟨token, .lexical what⟩)] m rest
  /-- A token is discarded. -/
  | skip {m : Machine} {error : SyntaxError} {token : Token} {rest : List Token} {t : Terminal} :
    m.discarding = some error → token.kind.terminal = .ok t → endsDiscarding t = false →
    Machine.Step budget last m (token :: rest) [] m rest
  /-- The last token of a discarded region is discarded. -/
  | resume {m : Machine} {error : SyntaxError} {token : Token} {rest : List Token} {t : Terminal} :
    m.discarding = some error → token.kind.terminal = .ok t → endsDiscarding t = true →
    Machine.Step budget last m (token :: rest) [] { m with discarding := none } rest
  /-- A right-hand side is reduced. -/
  | reduce {m : Machine} {tokens : List Token} {t : Terminal} {rule : Rule}
    {stack' : List Frame} {event : Option Event} :
    m.discarding = none → (tokens.headD last).kind.terminal = .ok t →
    (topState m.stack).action t = .reduce rule →
    reduce rule (tokens.headD last).span.location m.stack = .ok (stack', event) →
    Machine.Step budget last m tokens event.toList { m with stack := stack' } tokens
  /-- A token is taken. -/
  | shift {m : Machine} {token : Token} {rest : List Token} {t : Terminal} {next : State} :
    m.discarding = none → token.kind.terminal = .ok t →
    (topState m.stack).action t = .shift next →
    Machine.Step budget last m (token :: rest) []
      { m with stack := .ofToken next token :: m.stack, quiet := m.quiet - 1 } rest
  /-- A token is refused, and the parser recovers. -/
  | recover {m m' : Machine} {token : Token} {rest : List Token} {t : Terminal}
    {verdict : Verdict} {events : List Event} :
    m.discarding = none → token.kind.terminal = .ok t →
    (topState m.stack).action t = verdict.action → (∀ next, verdict ≠ .shift next) →
    m.recover budget token t = (events, .ok m') →
    Machine.Step budget last m (token :: rest) events m' rest

/-- Any number of steps, with what is handed over. -/
inductive Machine.Steps (budget : Nat) (last : Token) :
    Machine → List Token → List Event → Machine → List Token → Prop where
  | refl {m : Machine} {tokens : List Token} : Machine.Steps budget last m tokens [] m tokens
  | head {m m' m'' : Machine} {tokens tokens' tokens'' : List Token} {events more : List Event} :
    Machine.Step budget last m tokens events m' tokens' →
    Machine.Steps budget last m' tokens' more m'' tokens'' →
    Machine.Steps budget last m tokens (events ++ more) m'' tokens''

/-- Where no step is left, and what the result is. -/
inductive Machine.Ends (budget : Nat) (last : Token) :
    Machine → List Token → Except SyntaxError Unit → Prop where
  /-- Without a budget a token that is a mistake is fatal. -/
  | mistake {m : Machine} {token : Token} {rest : List Token} {what : LexicalError} :
    token.kind.terminal = .error what → budget = 0 →
    Machine.Ends budget last m (token :: rest) (.error ⟨token, .lexical what⟩)
  /-- The stack does not fit the tables. -/
  | inconsistent {m : Machine} {tokens : List Token} {t : Terminal} {rule : Rule}
    {what : Inconsistency} :
    m.discarding = none → (tokens.headD last).kind.terminal = .ok t →
    (topState m.stack).action t = .reduce rule →
    reduce rule (tokens.headD last).span.location m.stack = .error what →
    Machine.Ends budget last m tokens (.error ⟨tokens.headD last, .inconsistent what⟩)
  /-- A token is refused, and the parser does not recover. -/
  | givesUp {m : Machine} {token : Token} {rest : List Token} {t : Terminal}
    {verdict : Verdict} {error : SyntaxError} :
    m.discarding = none → token.kind.terminal = .ok t →
    (topState m.stack).action t = verdict.action → (∀ next, verdict ≠ .shift next) →
    m.recover budget token t = ([], .error error) →
    Machine.Ends budget last m (token :: rest) (.error error)
  /-- The input is complete. -/
  | accepts {m : Machine} :
    m.discarding = none → (topState m.stack).action .endOfInput = .accept →
    Machine.Ends budget last m [] (.ok ())
  /-- The input ends within a statement. -/
  | incomplete {m : Machine} :
    m.discarding = none → (topState m.stack).action .endOfInput = .refuse →
    Machine.Ends budget last m [] (.error ⟨last, .unexpected (topState m.stack).expected⟩)
  /-- The input ends within a discarded region. -/
  | abandons {m : Machine} {error : SyntaxError} :
    m.discarding = some error → Machine.Ends budget last m [] (.error error)

/-- What comes out if the events have been handed over before. -/
def Parse.after (events : List Event) (p : Parse) : Parse :=
  ⟨events ++ p.events, p.result, p.recoveries, p.rest⟩

theorem Parse.after_append (events more : List Event) (p : Parse) :
    p.after (events ++ more) = (p.after more).after events := by
  simp only [after, List.append_assoc]

/-! ### One reduction -/

/-- **What a reduction does**: the frames of the right-hand side give way to one of the left-hand side. -/
theorem exists_of_reduce {rule : Rule} {here : Location} {stack stack' : List Frame}
    {event : Option Event} (h : reduce rule here stack = .ok (stack', event)) :
    ∃ below rest next meaning span, stack.drop rule.length = below :: rest ∧
      rule.meaning? ((stack.take rule.length).reverse.map Frame.meaning) span = some (meaning, event) ∧
      below.state.goto? rule.lhs = some next ∧ stack' = ⟨next, meaning, span⟩ :: below :: rest := by
  unfold reduce at h
  cases hdrop : stack.drop rule.length with
  | nil =>
    simp only [hdrop] at h
    cases h
  | cons below rest =>
    simp only [hdrop] at h
    split at h
    · cases h
    next meaning _ hmeaning =>
      split at h
      · cases h
      next next hgoto =>
        obtain ⟨rfl, rfl⟩ := Prod.mk.inj (Except.ok.inj h)
        exact ⟨below, rest, next, meaning, _, rfl, hmeaning, hgoto, rfl⟩

namespace Machine

variable {budget : Nat} {m : Machine} {token last : Token} {t : Terminal} {rule : Rule}
  {stack' : List Frame} {event : Option Event}

theorem feed_reduce (hm : m.discarding = none) (ht : token.kind.terminal = .ok t)
    (haction : (topState m.stack).action t = .reduce rule)
    (hreduce : CallGraph.reduce rule token.span.location m.stack = .ok (stack', event)) :
    m.feed budget token = (event.toList ++ (Machine.feed budget { m with stack := stack' } token).1,
      (Machine.feed budget { m with stack := stack' } token).2) := by
  unfold feed
  rw [ht]
  simp only [hm, settle_of_reduce haction hreduce]
  rcases settle t token.span.location stack' with ⟨events, what | ⟨stack, verdict⟩⟩
  · rfl
  · cases verdict with
    | shift next => rfl
    | accept => simp only [List.append_assoc]
    | refuse => simp only [List.append_assoc]

theorem finish_reduce (hm : m.discarding = none)
    (haction : (topState m.stack).action .endOfInput = .reduce rule)
    (hreduce : CallGraph.reduce rule last.span.location m.stack = .ok (stack', event)) :
    m.finish last = (event.toList ++ (Machine.finish { m with stack := stack' } last).1,
      (Machine.finish { m with stack := stack' } last).2) := by
  unfold finish
  simp only [hm, settle_of_reduce haction hreduce]
  rcases settle .endOfInput last.span.location stack' with ⟨events, what | ⟨stack, verdict⟩⟩
  · rfl
  · cases verdict <;> rfl

end Machine

/-! ### Steps and runs -/

section

variable {budget : Nat} {last : Token} {m m' : Machine} {tokens tokens' : List Token}
  {events : List Event} {result : Except SyntaxError Unit}

theorem terminal_last {t : Terminal} (hlast : last.kind = .endOfInput)
    (ht : last.kind.terminal = .ok t) : t = .endOfInput := by
  rw [hlast, TokenKind.terminal] at ht
  exact (Except.ok.inj ht).symm

/-- A run goes on behind each of its steps. -/
theorem Machine.Step.run_eq (hlast : last.kind = .endOfInput)
    (h : Machine.Step budget last m tokens events m' tokens') :
    m.run budget last tokens = (m'.run budget last tokens').after events := by
  cases h with
  | mistake hwhat hbudget =>
    refine Machine.run_cons_ok ?_ _
    rw [Machine.feed_of_mistake hwhat, if_neg hbudget]
  | skip hm ht hends =>
    refine Machine.run_cons_ok ?_ _
    rw [Machine.feed_of_discarding hm ht, if_neg (Bool.not_eq_true _ ▸ hends)]
  | resume hm ht hends =>
    refine Machine.run_cons_ok ?_ _
    rw [Machine.feed_of_discarding hm ht, if_pos hends]
  | @reduce _ t rule stack' event hm ht haction hreduce =>
    cases tokens with
    | nil =>
      rw [List.headD_nil] at ht hreduce
      obtain rfl := terminal_last hlast ht
      rw [Machine.run, Machine.run, Machine.finish_reduce hm haction hreduce]
      rfl
    | cons token rest =>
      rw [List.headD_cons] at ht hreduce
      rw [Machine.run, Machine.run, Machine.feed_reduce hm ht haction hreduce]
      rcases Machine.feed budget { m with stack := stack' } token with ⟨handed, error | m'⟩
      · rfl
      · simp only [Parse.after, List.append_assoc]
  | @shift token _ t next hm ht haction =>
    have hsettle := @settle_of_verdict _ _ (.shift next) token.span.location haction
    exact Machine.run_cons_ok (Machine.feed_shift hm ht hsettle) _
  | recover hm ht haction hverdict hrecover =>
    refine Machine.run_cons_ok ?_ _
    rw [Machine.feed_refused hm ht (settle_of_verdict _ haction) hverdict, hrecover]
    rfl

/-- A run goes on behind any number of its steps. -/
theorem Machine.Steps.run_eq (hlast : last.kind = .endOfInput)
    (h : Machine.Steps budget last m tokens events m' tokens') :
    m.run budget last tokens = (m'.run budget last tokens').after events := by
  induction h with
  | refl => rfl
  | head hstep _ ih => rw [hstep.run_eq hlast, ih, Parse.after_append]

/-- Where no step is left, the run is over: nothing more is handed over or charged. -/
theorem Machine.Ends.run_eq (hlast : last.kind = .endOfInput)
    (h : Machine.Ends budget last m tokens result) :
    m.run budget last tokens = ⟨[], result, m.recoveries, tokens.tail⟩ := by
  cases h with
  | @mistake token _ what hwhat hbudget =>
    have hfeed : m.feed budget token = ([], .error ⟨token, .lexical what⟩) := by
      rw [Machine.feed_of_mistake hwhat, if_pos hbudget]
    exact Machine.run_cons_error hfeed _
  | @inconsistent _ t rule what hm ht haction hreduce =>
    have hsettle := settle_of_inconsistent haction hreduce
    cases tokens with
    | nil =>
      rw [List.headD_nil] at ht hsettle
      obtain rfl := terminal_last hlast ht
      rw [Machine.run, Machine.finish, hm]
      simp only [hsettle, List.headD_nil, List.tail_nil]
    | cons token rest =>
      rw [List.headD_cons] at ht hsettle
      exact Machine.run_cons_error (Machine.feed_of_inconsistent hm ht hsettle) _
  | @givesUp token _ t verdict error hm ht haction hverdict hrecover =>
    have hfeed : m.feed budget token = ([], .error error) := by
      rw [Machine.feed_refused hm ht (settle_of_verdict _ haction) hverdict, hrecover]
      rfl
    exact Machine.run_cons_error hfeed _
  | accepts hm haction =>
    rw [Machine.run, Machine.finish_of_settle hm (@settle_of_verdict _ _ .accept _ haction)]
    rfl
  | incomplete hm haction =>
    rw [Machine.run, Machine.finish_of_settle hm (@settle_of_verdict _ _ .refuse _ haction)]
    rfl
  | abandons hm =>
    rw [Machine.run, Machine.finish, hm]
    rfl

/-! ### Progress -/

theorem step_or_ends_of_reduce {rule : Rule} {t : Terminal} (budget : Nat)
    (hm : m.discarding = none) (ht : (tokens.headD last).kind.terminal = .ok t)
    (haction : (topState m.stack).action t = .reduce rule) :
    (∃ events m' tokens', Machine.Step budget last m tokens events m' tokens') ∨
      ∃ result, Machine.Ends budget last m tokens result := by
  cases hreduce : reduce rule (tokens.headD last).span.location m.stack with
  | ok out => exact .inl ⟨_, _, _, .reduce hm ht haction hreduce⟩
  | error what => exact .inr ⟨_, .inconsistent hm ht haction hreduce⟩

/-- **Progress.**  A parser takes a step or comes to an end. -/
theorem step_or_ends (hlast : last.kind = .endOfInput) (budget : Nat) (m : Machine)
    (tokens : List Token) :
    (∃ events m' tokens', Machine.Step budget last m tokens events m' tokens') ∨
      ∃ result, Machine.Ends budget last m tokens result := by
  cases tokens with
  | nil =>
    have ht : last.kind.terminal = .ok .endOfInput := by rw [hlast, TokenKind.terminal]
    cases hm : m.discarding with
    | some error => exact .inr ⟨_, .abandons hm⟩
    | none =>
      cases haction : (topState m.stack).action .endOfInput with
      | shift next => exact absurd haction (State.action_endOfInput_ne_shift _ next)
      | reduce rule => exact step_or_ends_of_reduce budget hm ht haction
      | accept => exact .inr ⟨_, .accepts hm haction⟩
      | refuse => exact .inr ⟨_, .incomplete hm haction⟩
  | cons token rest =>
    cases ht : token.kind.terminal with
    | error what =>
      by_cases hbudget : budget = 0
      · exact .inr ⟨_, .mistake ht hbudget⟩
      · exact .inl ⟨_, _, _, .mistake ht hbudget⟩
    | ok t =>
      cases hm : m.discarding with
      | some error =>
        cases hends : endsDiscarding t with
        | true => exact .inl ⟨_, _, _, .resume hm ht hends⟩
        | false => exact .inl ⟨_, _, _, .skip hm ht hends⟩
      | none =>
        by_cases hreduces : ∃ rule, (topState m.stack).action t = .reduce rule
        · obtain ⟨rule, haction⟩ := hreduces
          exact step_or_ends_of_reduce budget hm ht haction
        · obtain ⟨verdict, haction⟩ := exists_verdict (not_exists.1 hreduces)
          by_cases hverdict : ∃ next, verdict = .shift next
          · obtain ⟨next, rfl⟩ := hverdict
            exact .inl ⟨_, _, _, .shift hm ht haction⟩
          · rcases hrecover : m.recover budget token t with ⟨events, error | m'⟩
            · obtain ⟨rfl, -⟩ := Machine.recover_error hrecover
              exact .inr ⟨_, .givesUp hm ht haction (not_exists.1 hverdict) hrecover⟩
            · exact .inl ⟨_, _, _, .recover hm ht haction (not_exists.1 hverdict) hrecover⟩

/-- A step takes a token away or lowers the rank of the state on top. -/
theorem Machine.Step.closer (h : Machine.Step budget last m tokens events m' tokens') :
    tokens'.length < tokens.length ∨
      tokens' = tokens ∧ (topState m'.stack).rank < (topState m.stack).rank := by
  cases h with
  | reduce _ _ haction hreduce => exact .inr ⟨rfl, rank_reduce_lt haction hreduce⟩
  | _ => exact .inl (Nat.lt_succ_self _)

/-- After finitely many steps no step is left. -/
theorem exists_steps (hlast : last.kind = .endOfInput) (budget : Nat) (m : Machine)
    (tokens : List Token) :
    ∃ events m' tokens' result, Machine.Steps budget last m tokens events m' tokens' ∧
      Machine.Ends budget last m' tokens' result := by
  rcases step_or_ends hlast budget m tokens with ⟨events, m', tokens', hstep⟩ | ⟨result, hends⟩
  · have hcloser := hstep.closer
    obtain ⟨more, m'', tokens'', result, hsteps, hends⟩ := exists_steps hlast budget m' tokens'
    exact ⟨_, _, _, _, .head hstep hsteps, hends⟩
  · exact ⟨_, _, _, _, .refl, hends⟩
termination_by (tokens.length, (topState m.stack).rank)
decreasing_by
  rcases hcloser with hlt | ⟨rfl, hlt⟩
  · exact Prod.Lex.left _ _ hlt
  · exact Prod.Lex.right _ hlt

/-- **The steps are those of the run**: they hand over what it hands over, and end where it ends. -/
theorem exists_steps_of_run (hlast : last.kind = .endOfInput) (budget : Nat) (m : Machine)
    (tokens : List Token) :
    ∃ m' tokens', Machine.Steps budget last m tokens (m.run budget last tokens).events m' tokens' ∧
      Machine.Ends budget last m' tokens' (m.run budget last tokens).result := by
  obtain ⟨events, m', tokens', result, hsteps, hends⟩ := exists_steps hlast budget m tokens
  have hrun := hsteps.run_eq hlast
  rw [hends.run_eq hlast] at hrun
  refine ⟨m', tokens', ?_, ?_⟩
  · rw [hrun, Parse.after, List.append_nil]
    exact hsteps
  · rw [hrun]
    exact hends

end

end CallGraph
