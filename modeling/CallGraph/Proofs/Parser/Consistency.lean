import CallGraph.Proofs.Parser.Recovery
import CallGraph.Proofs.Parser.Step

/-!
# The stack of the parser is consistent

The parser can fail because its stack does not fit the tables.  It never does.

* `WellTyped` — the states on the stack form a path of the automaton, and each frame means what the
  symbol that leads into its state can mean;
* `Machine.Consistent` — the invariant;
* `Machine.Step.consistent` — **preservation**: each step keeps it;
* `Machine.Ends.aboutInput` — where it holds, a run ends with an error of the input, if with any;
* `parser_consistent` — every run of every parser is consistent, also of one that is used again.
-/

namespace CallGraph

/-! ### Well-typed stacks -/

/-- Whether a frame that means this can stand for the symbol. -/
def Meaning.Fits : Meaning → Symbol → Prop
  | .token taken, .terminal t => taken.kind.terminal = .ok t
  | .nothing, .nonterminal n => n = .statements ∨ n = .statement
  | .node _, .nonterminal n => n = .node
  | .assignments _, .nonterminal n => n = .assignmentList ∨ n = .assignments ∨ n = .options
  | .assignment _, .nonterminal n => n = .assignment ∨ n = .setting
  | .value _, .nonterminal n => n = .value
  | .edge _, .nonterminal n => n = .edge
  | .head _ _, .nonterminal n => n = .edgeHead
  | .payload _, .nonterminal n => n = .payload
  | _, _ => False

/-- At the bottom there is the start.  Each state above it is reached from the one below by a symbol, by
a shift if that is a terminal and by a goto otherwise, and the frame means what the symbol can mean. -/
inductive WellTyped : List Frame → Prop where
  | start {origin : Location} : WellTyped (emptyStack origin)
  | push {stack : List Frame} {frame : Frame} {x : Symbol} : WellTyped stack →
    (topState stack).next? x = some frame.state → frame.meaning.Fits x →
    WellTyped (frame :: stack)

/-- What the parser keeps of a derivation fits the symbol at its root. -/
theorem Derivation.meaning_fits {x : Symbol} (d : Derivation x) : d.meaning.Fits x := by
  cases d with
  | leaf token stands => exact stands
  | branch rule children =>
    cases rule <;> simp [Derivation.meaning, Rule.lhs, Nonterminal.meaning, Meaning.Fits]

theorem Stacked.wellTyped {origin : Location} {stack : List Frame} {pieces : List Piece}
    (h : Stacked (emptyStack origin) stack pieces) : WellTyped stack := by
  induction h with
  | base => exact .start
  | push _ hnext hholds ih =>
    refine ih.push hnext ?_
    rw [hholds.meaning]
    exact Derivation.meaning_fits _

/-! ### Errors of the input -/

/-- The error is one of the input.  Either the token is a mistake, which only a parser without a budget
does not pass over, or it stands for a terminal that is not expected. -/
def SyntaxError.AboutInput (budget : Nat) (error : SyntaxError) : Prop :=
  (budget = 0 ∧ ∃ mistake, error.token.kind = .invalid mistake ∧ error.reason = .lexical mistake) ∨
    ∃ t expected, error.token.kind.terminal = .ok t ∧ error.reason = .unexpected expected

theorem SyntaxError.AboutInput.reason_ne {budget : Nat} {error : SyntaxError}
    (h : error.AboutInput budget) (what : Inconsistency) : error.reason ≠ .inconsistent what := by
  rcases h with ⟨-, mistake, -, hreason⟩ | ⟨t, expected, -, hreason⟩
  · rw [hreason]
    exact SyntaxError.Reason.noConfusion
  · rw [hreason]
    exact SyntaxError.Reason.noConfusion

theorem kind_of_terminal_error {kind : TokenKind} {mistake : LexicalError}
    (h : kind.terminal = .error mistake) : kind = .invalid mistake := by
  cases kind <;> simp only [TokenKind.terminal, reduceCtorEq, Except.error.injEq] at h
  rw [h]

theorem aboutInput_unexpected {budget : Nat} {token : Token} {t : Terminal}
    (ht : token.kind.terminal = .ok t) (expected : List Terminal) :
    SyntaxError.AboutInput budget ⟨token, .unexpected expected⟩ :=
  .inr ⟨t, expected, ht, rfl⟩

/-! ### The invariant -/

/-- Whether the stack is that of a parser between two statements. -/
def IsBetween (stack : List Frame) : Prop := stack.map Frame.state = [.statements, .start]

/-- The stack holds derivations along the automaton; while tokens are being discarded it is between two
statements, and the error that is kept for the end of the input is one of the input. -/
structure Machine.Consistent (budget : Nat) (m : Machine) : Prop where
  /-- The stack is built from the bottom. -/
  stacked : ∃ origin pieces, Stacked (emptyStack origin) m.stack pieces
  /-- What discarding leaves behind. -/
  discarding : ∀ error, m.discarding = some error → IsBetween m.stack ∧ error.AboutInput budget

theorem consistent_initial (budget : Nat) (origin : Location) :
    (Machine.initial origin).Consistent budget :=
  ⟨⟨origin, [], .base⟩, fun _ h => by cases h⟩

/-- The empty list of statements is on the stack of a parser that has unwound all of it. -/
theorem stacked_pushStatements (origin here : Location) :
    Stacked (emptyStack origin) (pushStatements here (emptyStack origin))
      [⟨_, .branch .noStatements .nil⟩] :=
  .push .base rfl ⟨rfl, rfl, fun _ h => absurd h List.not_mem_nil⟩

/-- **Unwinding leads between two statements.**  What is kept is a list of complete statements. -/
theorem Stacked.unwind {origin : Location} {stack : List Frame} {pieces : List Piece}
    (h : Stacked (emptyStack origin) stack pieces) (here : Location) :
    IsBetween (unwind here stack) ∧
      ∃ pieces', Stacked (emptyStack origin) (CallGraph.unwind here stack) pieces' := by
  induction h with
  | base => exact ⟨rfl, _, stacked_pushStatements origin here⟩
  | @push stack pieces frame piece h hnext hholds ih =>
    by_cases hstate : frame.state = .statements
    · rw [unwind_of_statements hstate]
      refine ⟨?_, _, h.push hnext hholds⟩
      rw [hstate] at hnext
      obtain ⟨hstart, -⟩ := State.eq_start_of_next? hnext
      cases h with
      | base => rw [IsBetween, List.map_cons, hstate]; rfl
      | push _ hnext' _ => exact absurd hstart (State.next?_ne_start hnext')
    · rw [unwind_cons hstate (h.ne_nil (List.cons_ne_nil _ _))]
      exact ih

section

variable {budget : Nat} {last token : Token} {m m' : Machine} {tokens tokens' : List Token}
  {t : Terminal} {rule : Rule} {events : List Event}

theorem Machine.Consistent.wellTyped (h : m.Consistent budget) : WellTyped m.stack := by
  obtain ⟨origin, pieces, hstacked⟩ := h.stacked
  exact hstacked.wellTyped

/-- **The stack fits every reduction** that the tables ask for, and is still consistent behind it. -/
theorem Machine.Consistent.exists_reduce (h : m.Consistent budget)
    (haction : (topState m.stack).action t = .reduce rule) (here : Location) :
    ∃ stack' event, reduce rule here m.stack = .ok (stack', event) ∧
      ∃ origin pieces, Stacked (emptyStack origin) stack' pieces := by
  obtain ⟨origin, pieces, hstacked⟩ := h.stacked
  obtain ⟨children, lower, stack', -, hreduce, hstacked', -⟩ :=
    hstacked.reduce_eq (.start rfl) haction (.inl rfl) here
  exact ⟨stack', _, hreduce, origin, _, hstacked'⟩

/-- **Recovery** leads between two statements, whatever token it is due to. -/
theorem Machine.Consistent.recover (h : m.Consistent budget)
    (hrecover : m.recover budget token t = (events, .ok m')) :
    IsBetween m'.stack ∧
      (token.kind.terminal = .ok t → m'.Consistent budget) := by
  obtain ⟨origin, pieces, hstacked⟩ := h.stacked
  obtain ⟨hbetween, hunwound⟩ := hstacked.unwind token.span.location
  have hkept : m'.stack = CallGraph.unwind token.span.location m.stack ∧
      ∀ error, m'.discarding = some error → error = m.refusal token := by
    rcases m.recover_cases budget token t with ⟨hcase, -⟩ | ⟨hcase, -⟩ | ⟨hcase, -⟩ <;>
      rw [hcase] at hrecover
    · cases hrecover
    · obtain rfl := Except.ok.inj (Prod.mk.inj hrecover).2
      exact ⟨rfl, fun error => Machine.eq_refusal_of_unwound⟩
    · obtain rfl := Except.ok.inj (Prod.mk.inj hrecover).2
      exact ⟨rfl, fun error => Machine.eq_refusal_of_unwound⟩
  rw [hkept.1]
  refine ⟨hbetween, fun ht => ⟨⟨origin, hkept.1 ▸ hunwound⟩, fun error herror => ⟨hkept.1 ▸ hbetween, ?_⟩⟩⟩
  rw [hkept.2 error herror]
  exact aboutInput_unexpected ht _

/-! ### Steps and ends -/

/-- **Each step keeps the invariant.** -/
theorem Machine.Step.consistent (h : Machine.Step budget last m tokens events m' tokens')
    (hvisible : Visible tokens) (hm : m.Consistent budget) : m'.Consistent budget ∧ Visible tokens' := by
  have hrest : ∀ {token : Token} {rest : List Token}, Visible (token :: rest) → Visible rest :=
    fun h other hother => h other (List.mem_cons_of_mem _ hother)
  cases h with
  | mistake => exact ⟨hm, hrest hvisible⟩
  | skip => exact ⟨hm, hrest hvisible⟩
  | resume => exact ⟨⟨hm.stacked, fun _ h => by cases h⟩, hrest hvisible⟩
  | reduce hnone ht haction hreduce =>
    obtain ⟨stack', event, hreduce', hstacked⟩ := hm.exists_reduce haction _
    rw [hreduce] at hreduce'
    obtain ⟨rfl, -⟩ := Prod.mk.inj (Except.ok.inj hreduce')
    refine ⟨⟨hstacked, fun error herror => ?_⟩, hvisible⟩
    rw [show m.discarding = some error from herror] at hnone
    cases hnone
  | @shift token _ t next hnone ht haction =>
    obtain ⟨origin, pieces, hstacked⟩ := hm.stacked
    have hleaf : (Frame.ofToken next token).Holds ⟨_, .leaf token ht⟩ :=
      ⟨rfl, rfl, fun other hother =>
        (List.mem_singleton.1 hother) ▸ hvisible token List.mem_cons_self⟩
    refine ⟨⟨⟨origin, _, hstacked.push (State.next?_terminal.2 haction) hleaf⟩,
      fun error herror => ?_⟩, hrest hvisible⟩
    rw [show m.discarding = some error from herror] at hnone
    cases hnone
  | recover _ ht _ _ hrecover => exact ⟨(hm.recover hrecover).2 ht, hrest hvisible⟩

theorem Machine.Steps.consistent (h : Machine.Steps budget last m tokens events m' tokens')
    (hvisible : Visible tokens) (hm : m.Consistent budget) : m'.Consistent budget := by
  induction h with
  | refl => exact hm
  | head hstep _ ih =>
    obtain ⟨hm', hvisible'⟩ := hstep.consistent hvisible hm
    exact ih hvisible' hm'

/-- **A consistent parser fails because of the input**, if at all. -/
theorem Machine.Ends.aboutInput {error : SyntaxError} (hlast : last.kind = .endOfInput)
    (h : Machine.Ends budget last m tokens (.error error)) (hm : m.Consistent budget) :
    error.AboutInput budget := by
  generalize hresult : (Except.error error : Except SyntaxError Unit) = result at h
  cases h with
  | mistake hwhat hbudget =>
    obtain rfl := Except.error.inj hresult
    exact .inl ⟨hbudget, _, kind_of_terminal_error hwhat, rfl⟩
  | inconsistent _ _ haction hreduce =>
    obtain ⟨stack', event, hreduce', -⟩ := hm.exists_reduce haction (tokens.headD last).span.location
    rw [hreduce] at hreduce'
    cases hreduce'
  | givesUp _ ht _ _ hrecover =>
    obtain rfl := Except.error.inj hresult
    rw [(Machine.recover_error hrecover).2]
    exact aboutInput_unexpected ht _
  | accepts => cases hresult
  | incomplete =>
    obtain rfl := Except.error.inj hresult
    exact aboutInput_unexpected (t := .endOfInput) (by rw [hlast, TokenKind.terminal]) _
  | abandons hdiscarding =>
    obtain rfl := Except.error.inj hresult
    exact (hm.discarding error hdiscarding).2

end

/-! ### Using a parser again -/

/-- The tokens ahead of a parser that has been used so many times.  Each time it starts afresh behind
the tokens that it has taken, the place being `here` of how often it has been used before. -/
def tokensAhead (budget : Nat) (here : Nat → Location) (tokens : List Token) (last : Token) :
    Nat → List Token
  | 0 => tokens
  | times + 1 =>
    (parseTokens budget (here times) (tokensAhead budget here tokens last times) last).rest

theorem rest_suffix (budget : Nat) (last : Token) (m : Machine) (tokens : List Token) :
    (m.run budget last tokens).rest <:+ tokens := by
  induction tokens generalizing m with
  | nil => exact List.suffix_refl _
  | cons token tokens ih =>
    rcases hfeed : m.feed budget token with ⟨events, error | m'⟩
    · rw [Machine.run_cons_error hfeed]
      exact List.suffix_cons token tokens
    · rw [Machine.run_cons_ok hfeed]
      exact (ih m').trans (List.suffix_cons token tokens)

theorem tokensAhead_suffix (budget : Nat) (here : Nat → Location) (tokens : List Token) (last : Token)
    (times : Nat) : tokensAhead budget here tokens last times <:+ tokens := by
  induction times with
  | zero => exact List.suffix_refl _
  | succ times ih => exact (rest_suffix budget last _ _).trans ih

/-- **The parser never fails because of its own stack**, whatever the text and the budget, however
often it is used and wherever it then starts.  A run fails because of the input only.  It is made of steps, and before each of them
the stack is well typed and fits every reduction that the tables may ask for.  While tokens are being
discarded, and behind each recovery, the stack is between two statements. -/
theorem parser_consistent (budget : Nat) (origin : Location) (source : String)
    (here : Nat → Location) (times : Nat) :
    let scanned := (Scanner.startingAt origin source).tokens
    let tokens := tokensAhead budget here scanned.1 scanned.2 times
    let initial := Machine.initial (here times)
    let parsed := parseTokens budget (here times) tokens scanned.2
    (∀ error, parsed.result = .error error →
      (∀ what, error.reason ≠ .inconsistent what) ∧ error.AboutInput budget) ∧
    (∃ m rest, Machine.Steps budget scanned.2 initial tokens parsed.events m rest ∧
      Machine.Ends budget scanned.2 m rest parsed.result) ∧
    ∀ events m rest, Machine.Steps budget scanned.2 initial tokens events m rest →
      parsed = (m.run budget scanned.2 rest).after events ∧
      WellTyped m.stack ∧
      (∀ t rule here, (topState m.stack).action t = .reduce rule →
        ∃ stack' event, reduce rule here m.stack = .ok (stack', event)) ∧
      (m.discarding ≠ none → IsBetween m.stack) ∧
      ∀ token t handed m', m.recover budget token t = (handed, .ok m') → IsBetween m'.stack := by
  intro scanned tokens initial parsed
  have hlast : scanned.2.kind = .endOfInput := (Scanner.startingAt origin source).kind_last
  have hvisible : Visible tokens := fun token htoken =>
    (Scanner.startingAt origin source).visible_tokens token
      ((tokensAhead_suffix budget here scanned.1 scanned.2 times).subset htoken)
  have hinitial : initial.Consistent budget := consistent_initial budget _
  obtain ⟨m, rest, hsteps, hends⟩ := exists_steps_of_run hlast budget initial tokens
  refine ⟨fun error herror => ?_, ⟨m, rest, hsteps, hends⟩, fun events m rest hsteps => ?_⟩
  · rw [show (initial.run budget scanned.2 tokens).result = .error error from herror] at hends
    have habout := hends.aboutInput hlast (hsteps.consistent hvisible hinitial)
    exact ⟨habout.reason_ne, habout⟩
  · have hm := hsteps.consistent hvisible hinitial
    refine ⟨hsteps.run_eq hlast, hm.wellTyped, fun t rule here haction => ?_, fun hdiscarding => ?_,
      fun token t handed m' hrecover => (hm.recover hrecover).1⟩
    · obtain ⟨stack', event, hreduce, -⟩ := hm.exists_reduce haction here
      exact ⟨stack', event, hreduce⟩
    · obtain ⟨error, herror⟩ := Option.ne_none_iff_exists'.1 hdiscarding
      exact (hm.discarding error herror).1

end CallGraph
