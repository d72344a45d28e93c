import CallGraph.Proofs.Parser.Settle

/-!
# Reading a word

`Reads base word stack pieces` says that the parser, starting from `base`, has read the word and
has got to the stack.

* `Reads.halts` — with a token in sight, what can be reduced is reduced;
* `Halts.shift` — reading goes on with each token that is taken;
* `Halts.eq_of_isStuck` — where a token is not taken, no other reading of the same tokens takes it;
* `Machine.feed_shift`, `Machine.feed_refused` — what the parser does with the token;
* `Machine.recover_cases` — what it does with one that is refused.
-/

namespace CallGraph

/-- The parser has read the word from the foundation on. -/
structure Reads (base : List Frame) (word : List Token) (stack : List Frame)
    (pieces : List Piece) : Prop where
  /-- The stack is built on the foundation. -/
  stacked : Stacked base stack pieces
  /-- The frames cover the word. -/
  word_eq : wordOf pieces = word
  /-- The word was read without regard to what comes next. -/
  moves : ∀ rest, Moves ⟨base, [], word ++ rest⟩ ⟨stack, pieces, rest⟩

/-- The parser has read the word and is left with no reduction before the token. -/
structure Halts (s : State) (base : List Frame) (word : List Token) (token : Token) (t : Terminal)
    (stack : List Frame) (pieces : List Piece) (verdict : Verdict) : Prop where
  /-- The word was read from a foundation on. -/
  foundation : Foundation s base
  /-- The stack is built on it. -/
  stacked : Stacked base stack pieces
  /-- The frames cover the word. -/
  word_eq : wordOf pieces = word
  /-- Nothing below the foundation is asked for. -/
  isOpen : s = .start ∨ 0 < (topState stack).distance
  /-- No reduction is left. -/
  action_eq : (topState stack).action t = verdict.action
  /-- The word was read with the token in sight. -/
  moves : ∀ rest, Moves ⟨base, [], word ++ token :: rest⟩ ⟨stack, pieces, token :: rest⟩

theorem Reads.base (base : List Frame) : Reads base [] base [] :=
  ⟨.base, rfl, fun _ => .refl⟩

section

variable {s : State} {base stack stack' : List Frame} {word : List Token}
  {pieces pieces' : List Piece} {token : Token} {t : Terminal} {events : List Event}
  {verdict : Verdict} {next : State}

/-- After the reductions before a token the parser is still behind the same word. -/
theorem Reads.halts (h : Reads base word stack pieces) (hbase : Foundation s base)
    (hs : Settles s base stack pieces token t events stack' pieces' verdict) :
    Halts s base word token t stack' pieces' verdict where
  foundation := hbase
  stacked := hs.stacked
  word_eq := hs.word_eq.trans h.word_eq
  isOpen := hs.isOpen
  action_eq := hs.action_eq
  moves rest := (h.moves (token :: rest)).trans (hs.moves rest)

/-- A token that is taken belongs to the word. -/
theorem Halts.shift (h : Halts s base word token t stack pieces (.shift next))
    (ht : token.kind.terminal = .ok t) (hvisible : token.span.isEmpty = false) :
    Reads base (word ++ [token]) (.ofToken next token :: stack)
      (⟨_, .leaf token ht⟩ :: pieces) where
  stacked := by
    have hleaf : (Frame.ofToken next token).Holds ⟨_, .leaf token ht⟩ :=
      ⟨rfl, rfl, fun other hother => (List.mem_singleton.1 hother) ▸ hvisible⟩
    exact h.stacked.push (State.next?_terminal.2 h.action_eq) hleaf
  word_eq := by
    rw [wordOf_cons, h.word_eq]
    rfl
  moves rest := by
    rw [List.append_assoc]
    exact (h.moves rest).tail (.shift ht h.action_eq)

/-- Where the token is not taken, each way to get stuck ends here. -/
theorem Halts.eq_of_isStuck (h : Halts s base word token t stack pieces verdict)
    (ht : token.kind.terminal = .ok t) (hverdict : ∀ next, verdict ≠ .shift next)
    {rest : List Token} {c : Config} (hc : Moves ⟨base, [], word ++ token :: rest⟩ c)
    (hstuck : c.IsStuck) : c = ⟨stack, pieces, token :: rest⟩ := by
  refine hc.eq_of_isStuck (h.moves rest) hstuck (isStuck_of_action ht ?_)
  rw [h.action_eq]
  cases verdict with
  | shift next => exact absurd rfl (hverdict next)
  | accept => exact Or.inl rfl
  | refuse => exact Or.inr rfl

namespace Machine

variable {budget : Nat} {m : Machine}

/-! ### What the parser does with a token -/

theorem feed_of_mistake {what : LexicalError} (h : token.kind.terminal = .error what) :
    m.feed budget token = if budget = 0 then ([], .error ⟨token, .lexical what⟩)
      else ([.report (SyntaxError.toDiagnostic ⟨token, .lexical what⟩)], .ok m) := by
  rw [feed, h]

theorem feed_of_discarding {error : SyntaxError} (hm : m.discarding = some error)
    (ht : token.kind.terminal = .ok t) :
    m.feed budget token =
      ([], .ok (if endsDiscarding t then { m with discarding := none } else m)) := by
  rw [feed, ht]
  simp only [hm]

theorem feed_of_inconsistent {what : Inconsistency}
    (hm : m.discarding = none) (ht : token.kind.terminal = .ok t)
    (hs : settle t token.span.location m.stack = (events, .error what)) :
    m.feed budget token = (events, .error ⟨token, .inconsistent what⟩) := by
  rw [feed, ht]
  simp only [hm, hs]

theorem feed_shift (hm : m.discarding = none) (ht : token.kind.terminal = .ok t)
    (hs : settle t token.span.location m.stack = (events, .ok (stack', .shift next))) :
    m.feed budget token =
      (events, .ok { m with stack := .ofToken next token :: stack', quiet := m.quiet - 1 }) := by
  rw [feed, ht]
  simp only [hm, hs]

theorem feed_refused (hm : m.discarding = none) (ht : token.kind.terminal = .ok t)
    (hs : settle t token.span.location m.stack = (events, .ok (stack', verdict)))
    (hverdict : ∀ next, verdict ≠ .shift next) :
    m.feed budget token = (events ++ (recover budget { m with stack := stack' } token t).1,
      (recover budget { m with stack := stack' } token t).2) := by
  rw [feed, ht]
  simp only [hm, hs]

/-! ### What recovery does -/

/-- The error that a refused token makes. -/
def refusal (m : Machine) (token : Token) : SyntaxError :=
  ⟨token, .unexpected (topState m.stack).expected⟩

/-- The parser behind a recovery, the charge left aside. -/
def unwound (m : Machine) (token : Token) (t : Terminal) : Machine where
  stack := unwind token.span.location m.stack
  quiet := quietTokens
  recoveries := m.recoveries
  discarding := if endsDiscarding t then none else some (m.refusal token)

/-- **What recovery does**: it gives up without a budget or with a budget that is spent, it goes on in
silence soon after another recovery, and otherwise it reports and charges. -/
theorem recover_cases (budget : Nat) (m : Machine) (token : Token) (t : Terminal) :
    (m.recover budget token t = ([], .error (m.refusal token)) ∧
        (budget = 0 ∨ m.quiet = 0 ∧ budget ≤ m.recoveries)) ∨
      (m.recover budget token t = ([], .ok (m.unwound token t)) ∧ budget ≠ 0 ∧ 0 < m.quiet) ∨
      m.recover budget token t = ([.report (m.refusal token).toDiagnostic],
        .ok { m.unwound token t with recoveries := m.recoveries + 1 }) ∧
        budget ≠ 0 ∧ m.quiet = 0 ∧ m.recoveries < budget := by
  unfold recover
  by_cases hbudget : budget = 0
  · exact .inl ⟨if_pos hbudget, .inl hbudget⟩
  by_cases hquiet : 0 < m.quiet
  · refine .inr (.inl ⟨?_, hbudget, hquiet⟩)
    simp only [hbudget, hquiet, if_false, if_true, unwound, refusal]
  have hzero : m.quiet = 0 := Nat.eq_zero_of_not_pos hquiet
  by_cases hspent : budget ≤ m.recoveries
  · refine .inl ⟨?_, .inr ⟨hzero, hspent⟩⟩
    simp only [hbudget, hquiet, hspent, if_false, if_true, refusal]
  · refine .inr (.inr ⟨?_, hbudget, hzero, Nat.lt_of_not_le hspent⟩)
    simp only [hbudget, hquiet, hspent, if_false, unwound, refusal]

/-- A parser that does not recover hands over nothing. -/
theorem recover_error {error : SyntaxError}
    (h : m.recover budget token t = (events, .error error)) :
    events = [] ∧ error = m.refusal token := by
  rcases m.recover_cases budget token t with ⟨hcase, -⟩ | ⟨hcase, -⟩ | ⟨hcase, -⟩ <;>
    rw [hcase] at h
  · obtain ⟨rfl, herror⟩ := Prod.mk.inj h
    exact ⟨rfl, (Except.error.inj herror).symm⟩
  · cases h
  · cases h

/-- Discarding begins with the token that has been refused. -/
theorem eq_refusal_of_unwound {error : SyntaxError}
    (h : (m.unwound token t).discarding = some error) : error = m.refusal token := by
  unfold unwound at h
  split at h
  · cases h
  · exact (Option.some.inj h).symm

/-! ### A run -/

theorem run_cons_ok {m' : Machine} {last : Token} (h : m.feed budget token = (events, .ok m'))
    (rest : List Token) : m.run budget last (token :: rest) =
      ⟨events ++ (m'.run budget last rest).events, (m'.run budget last rest).result,
        (m'.run budget last rest).recoveries, (m'.run budget last rest).rest⟩ := by
  rw [run, h]

theorem run_cons_error {error : SyntaxError} {last : Token}
    (h : m.feed budget token = (events, .error error)) (rest : List Token) :
    m.run budget last (token :: rest) = ⟨events, .error error, m.recoveries, rest⟩ := by
  rw [run, h]

theorem finish_of_settle {last : Token} (hm : m.discarding = none)
    (hs : settle .endOfInput last.span.location m.stack = (events, .ok (stack', verdict))) :
    m.finish last = (events, if verdict = .accept then .ok ()
      else .error ⟨last, .unexpected (topState stack').expected⟩) := by
  rw [finish, hm]
  simp only [hs]
  cases verdict <;> rfl

end Machine

end

end CallGraph
