import CallGraph.Proofs.Parser.Step
import CallGraph.Proofs.Token.Tiling

/-!
# Parsing terminates

Nothing that the parser looks at falls with each of its steps: empty right-hand sides raise the stack,
those of one symbol keep its height, and soon after a recovery others are free of charge.  What falls is a
potential, in which every token ahead counts for six and the state on top for its rank.

* `StepKind`, `Machine.nextKind` — what a step does;
* `Machine.Walk` — any number of steps, with what each of them does;
* `Machine.Step.cases_kind` — a step is a reduction, or it takes a token away;
* `Machine.Step.potential_lt`, `Machine.Walk.length_le` — the potential bounds the number of steps;
* `Machine.Walk.reductions_le` — the rank bounds the number of reductions in a row;
* `length_reduce` — what a reduction does to the height of the stack;
* `parsing_terminates` — **every text** is read in finitely many steps.
-/

namespace CallGraph

/-! ### What a step does -/

/-- What a step of the parser does. -/
inductive StepKind where
  /-- It passes over a token that is a mistake or is discarded. -/
  | pass
  /-- It reduces a right-hand side. -/
  | reduction
  /-- It takes a token. -/
  | shift
  /-- It recovers from a token that is refused. -/
  | recovery
deriving DecidableEq

/-- The step that the tables ask for. -/
def Action.stepKind : Action → StepKind
  | .shift _ => .shift
  | .reduce _ => .reduction
  | .accept | .refuse => .recovery

/-- What the parser does next, as long as it has not come to an end. -/
def Machine.nextKind (last : Token) (m : Machine) (tokens : List Token) : StepKind :=
  match (tokens.headD last).kind.terminal with
  | .error _ => .pass
  | .ok t => if m.discarding.isSome then .pass else ((topState m.stack).action t).stepKind

/-- Any number of steps, with what each of them does and what is handed over. -/
inductive Machine.Walk (budget : Nat) (last : Token) :
    Machine → List Token → List StepKind → List Event → Machine → List Token → Prop where
  | refl {m : Machine} {tokens : List Token} : Machine.Walk budget last m tokens [] [] m tokens
  | head {m m' m'' : Machine} {tokens tokens' tokens'' : List Token} {kinds : List StepKind}
    {events more : List Event} :
    Machine.Step budget last m tokens events m' tokens' →
    Machine.Walk budget last m' tokens' kinds more m'' tokens'' →
    Machine.Walk budget last m tokens (m.nextKind last tokens :: kinds) (events ++ more) m'' tokens''

/-- The tokens ahead count for six each, and the state on top for its rank. -/
def Machine.potential (m : Machine) (tokens : List Token) : Nat :=
  6 * tokens.length + (topState m.stack).rank

theorem State.rank_le (s : State) : s.rank ≤ 5 := by
  cases s <;> decide

/-- **The height of the stack** behind a reduction: an empty right-hand side raises it by one, one of a
single symbol keeps it, and a longer one lowers it. -/
theorem length_reduce {rule : Rule} {here : Location} {stack stack' : List Frame} {event : Option Event}
    (h : reduce rule here stack = .ok (stack', event)) :
    stack'.length + rule.length = stack.length + 1 := by
  obtain ⟨below, rest, next, meaning, span, hdrop, -, -, rfl⟩ := exists_of_reduce h
  have hlength := congrArg List.length hdrop
  rw [List.length_drop, List.length_cons] at hlength
  simp only [List.length_cons]
  omega

section

variable {budget : Nat} {last : Token} {m m' : Machine} {tokens tokens' : List Token}
  {kinds : List StepKind} {events : List Event} {t : Terminal}

namespace Machine

variable {token : Token} {rest : List Token} {next : State} {verdict : Verdict}

theorem nextKind_of_mistake {what : LexicalError} (hwhat : token.kind.terminal = .error what) :
    m.nextKind last (token :: rest) = .pass := by
  unfold nextKind
  rw [List.headD_cons, hwhat]

theorem nextKind_of_discarding {error : SyntaxError} (hm : m.discarding = some error) :
    m.nextKind last tokens = .pass := by
  unfold nextKind
  rw [hm]
  split <;> rfl

theorem nextKind_of_action (hm : m.discarding = none)
    (ht : (tokens.headD last).kind.terminal = .ok t) :
    m.nextKind last tokens = ((topState m.stack).action t).stepKind := by
  unfold nextKind
  rw [ht, hm]
  rfl

theorem nextKind_of_shift (hm : m.discarding = none) (ht : token.kind.terminal = .ok t)
    (haction : (topState m.stack).action t = .shift next) :
    m.nextKind last (token :: rest) = .shift := by
  have hhead : ((token :: rest).headD last).kind.terminal = .ok t := ht
  rw [nextKind_of_action hm hhead, haction, Action.stepKind]

theorem nextKind_of_refused (hm : m.discarding = none) (ht : token.kind.terminal = .ok t)
    (haction : (topState m.stack).action t = verdict.action) (hverdict : ∀ next, verdict ≠ .shift next) :
    m.nextKind last (token :: rest) = .recovery := by
  have hhead : ((token :: rest).headD last).kind.terminal = .ok t := ht
  rw [nextKind_of_action hm hhead, haction]
  cases verdict with
  | shift next => exact absurd rfl (hverdict next)
  | accept => rfl
  | refuse => rfl

end Machine

/-- **A step** is a reduction, which lowers the rank of the state on top, or it takes a token away.  One
that only passes over the token leaves the stack alone. -/
theorem Machine.Step.cases_kind (h : Machine.Step budget last m tokens events m' tokens') :
    (m.nextKind last tokens = .reduction ∧ tokens' = tokens ∧
      (topState m'.stack).rank < (topState m.stack).rank) ∨
    (m.nextKind last tokens ≠ .reduction ∧ (∃ token, tokens = token :: tokens') ∧
      (m.nextKind last tokens = .pass → m'.stack = m.stack)) := by
  cases h with
  | @mistake token _ what hwhat =>
    exact .inr ⟨by rw [nextKind_of_mistake hwhat]; decide, ⟨token, rfl⟩, fun _ => rfl⟩
  | @skip error token _ t hm =>
    exact .inr ⟨by rw [nextKind_of_discarding hm]; decide, ⟨token, rfl⟩, fun _ => rfl⟩
  | @resume error token _ t hm =>
    exact .inr ⟨by rw [nextKind_of_discarding hm]; decide, ⟨token, rfl⟩, fun _ => rfl⟩
  | reduce hm ht haction hreduce =>
    refine .inl ⟨?_, rfl, rank_reduce_lt haction hreduce⟩
    rw [nextKind_of_action hm ht, haction, Action.stepKind]
  | @shift token _ t next hm ht haction =>
    rw [nextKind_of_shift hm ht haction]
    exact .inr ⟨by decide, ⟨token, rfl⟩, fun h => by cases h⟩
  | @recover _ token _ t verdict _ hm ht haction hverdict =>
    rw [nextKind_of_refused hm ht haction hverdict]
    exact .inr ⟨by decide, ⟨token, rfl⟩, fun h => by cases h⟩

/-- **Every step lowers the potential.** -/
theorem Machine.Step.potential_lt (h : Machine.Step budget last m tokens events m' tokens') :
    m'.potential tokens' < m.potential tokens := by
  unfold potential
  rcases h.cases_kind with ⟨-, rfl, hrank⟩ | ⟨-, ⟨token, rfl⟩, -⟩
  · omega
  · have hrank := (topState m'.stack).rank_le
    rw [List.length_cons]
    omega

/-! ### Any number of steps -/

namespace Machine.Walk

/-- There are no more steps than the potential allows. -/
theorem length_le (h : Machine.Walk budget last m tokens kinds events m' tokens') :
    kinds.length + m'.potential tokens' ≤ m.potential tokens := by
  induction h with
  | refl => exact Nat.le_of_eq (Nat.zero_add _)
  | head hstep _ ih =>
    have hlt := hstep.potential_lt
    rw [List.length_cons]
    omega

/-- **The tokens ahead** are those that are left once every step but the reductions has taken one. -/
theorem tokens_eq (h : Machine.Walk budget last m tokens kinds events m' tokens') :
    tokens' = tokens.drop (kinds.countP (· ≠ .reduction)) ∧
      kinds.countP (· ≠ .reduction) + tokens'.length = tokens.length := by
  induction h with
  | refl => exact ⟨rfl, Nat.zero_add _⟩
  | head hstep _ ih =>
    rcases hstep.cases_kind with ⟨hkind, rfl, -⟩ | ⟨hkind, ⟨token, rfl⟩, -⟩
    · rw [List.countP_cons_of_neg (by simp [hkind])]
      exact ih
    · rw [List.countP_cons_of_pos (by simp [hkind]), List.drop_succ_cons, List.length_cons]
      exact ⟨ih.1, by omega⟩

/-- **Reductions in a row** are no more than the rank of the state on top.  Tokens that are passed over
in between do not raise it. -/
theorem reductions_le (h : Machine.Walk budget last m tokens kinds events m' tokens')
    (hshift : .shift ∉ kinds) (hrecovery : .recovery ∉ kinds) :
    kinds.count .reduction ≤ (topState m.stack).rank := by
  induction h with
  | refl => exact Nat.zero_le _
  | @head m m₁ _ tokens _ _ _ _ _ hstep _ ih =>
    obtain ⟨hfirst, hshift⟩ := List.ne_and_not_mem_of_not_mem_cons hshift
    obtain ⟨hfirst', hrecovery⟩ := List.ne_and_not_mem_of_not_mem_cons hrecovery
    have hle := ih hshift hrecovery
    rcases hstep.cases_kind with ⟨hkind, -, hrank⟩ | ⟨hkind, -, hpass⟩
    · rw [hkind, List.count_cons_self]
      omega
    · rw [List.count_cons_of_ne hkind, ← hpass]
      · exact hle
      · cases hnext : m.nextKind last tokens with
        | pass => rfl
        | reduction => exact absurd hnext hkind
        | shift => exact absurd hnext.symm hfirst
        | recovery => exact absurd hnext.symm hfirst'

/-- What each step does can be told along any steps. -/
theorem exists_of_steps (h : Machine.Steps budget last m tokens events m' tokens') :
    ∃ kinds, Machine.Walk budget last m tokens kinds events m' tokens' := by
  induction h with
  | refl => exact ⟨[], .refl⟩
  | head hstep _ ih =>
    obtain ⟨kinds, hwalk⟩ := ih
    exact ⟨_, hwalk.head hstep⟩

end Machine.Walk

end

/-! ### The scanner -/

namespace Scanner

/-- The tokens that a scanner still holds after so many calls. -/
theorem tokens_after (s : Scanner) (calls : Nat) : (s.after calls).tokens.1 = s.tokens.1.drop calls := by
  induction calls generalizing s with
  | zero => rfl
  | succ calls ih =>
    rw [after_succ, ih]
    by_cases h : s.next.1.isEnd = true
    · have hend : s.next.2.next.1.isEnd = true := (congrArg (·.1.isEnd) (next_next_of_isEnd h)).trans h
      rw [tokens_of_isEnd h, tokens_of_isEnd hend, List.drop_nil, List.drop_nil]
    · rw [tokens_of_not_isEnd h, List.drop_succ_cons]

/-- There are no more tokens than bytes. -/
theorem length_tokens_le (s : Scanner) : s.tokens.1.length ≤ byteLength s.rest := by
  obtain ⟨tiles, tail, htokens, htiling⟩ := s.exists_tiling
  rw [← htokens, List.length_map]
  exact htiling.length_le

end Scanner

/-! ### All of it -/

/-- **Parsing terminates**, whatever the source, the place where it starts and the budget.

* The parser comes to an end, and what it has handed over by then and the result are those of the parse.
* It takes at most six steps for each byte of the source and one more, however often it recovers.
* Every step takes one token away from the scanner, a recovery no less than a shift, and only the
  reductions take none.  The tokens that are discarded behind a recovery are passed over one by one.
* Where no token is taken and none recovered from, there are at most five reductions, whatever the height
  of the stack.  This is so although a reduction raises the stack by one if its right-hand side is empty,
  and keeps its height if that is a single symbol. -/
theorem parsing_terminates (budget : Nat) (origin : Location) (source : String) :
    let scanner := Scanner.startingAt origin source
    let tokens := scanner.tokens.1
    let last := scanner.tokens.2
    let initial := Machine.initial origin
    let parsed := parse budget origin source
    (∃ kinds m rest, Machine.Walk budget last initial tokens kinds parsed.events m rest ∧
      Machine.Ends budget last m rest parsed.result) ∧
    (∀ kinds events m rest, Machine.Walk budget last initial tokens kinds events m rest →
      kinds.length ≤ 6 * source.utf8ByteSize + 1 ∧
      let taken := kinds.countP (· ≠ .reduction)
      rest = (scanner.after taken).tokens.1 ∧ taken + rest.length = tokens.length) ∧
    (∀ m ahead kinds events m' rest, Machine.Walk budget last m ahead kinds events m' rest →
      .shift ∉ kinds → .recovery ∉ kinds → kinds.count .reduction ≤ 5) ∧
    ∀ rule here stack stack' event, reduce rule here stack = .ok (stack', event) →
      stack'.length + rule.length = stack.length + 1 := by
  intro scanner tokens last initial parsed
  have hlast : last.kind = .endOfInput := scanner.kind_last
  refine ⟨?_, fun kinds events m rest hwalk => ?_, fun m ahead kinds events m' rest hwalk => ?_,
    fun rule here stack stack' event => length_reduce⟩
  · obtain ⟨m, rest, hsteps, hends⟩ := exists_steps_of_run hlast budget initial tokens
    obtain ⟨kinds, hwalk⟩ := Machine.Walk.exists_of_steps hsteps
    exact ⟨kinds, m, rest, hwalk, hends⟩
  · have hlength := hwalk.length_le
    have hinitial : initial.potential tokens = 6 * tokens.length + 1 := rfl
    have hbytes : tokens.length ≤ source.utf8ByteSize := by
      rw [← byteLength_toList]
      exact scanner.length_tokens_le
    obtain ⟨hrest, hcount⟩ := hwalk.tokens_eq
    refine ⟨by omega, ?_, hcount⟩
    rw [scanner.tokens_after]
    exact hrest
  · intro hshift hrecovery
    exact Nat.le_trans (hwalk.reductions_le hshift hrecovery) (State.rank_le _)

end CallGraph
