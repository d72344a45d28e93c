import Mathlib.Data.List.Basic
import CallGraph.Grammar.Table

/-!
# The automaton behind the tables

Shifts and gotos make the tables an automaton over symbols (`State.next?`, `State.along?`).  There
is one sweep through its transitions, one through the actions and one through the reductions
(`transition_sweep`, `action_sweep`, `reduction_sweep`); all facts about it are read off them:

* `State.reading` — the symbols that have been read whenever the state is on top, so a state that
  reduces by a rule has just read its right-hand side (`rhs_suffix_reading`);
* `goto?_of_reduces` — wherever a right-hand side has been read and is reduced, the state below it
  knows where to go on;
* `along?_rhs_of_goto?` — conversely, where a nonterminal may be read, each of its right-hand sides
  can be read and is then reduced, if the next terminal may follow;
* `State.distance` — how many tokens are missing to the end of the statement: a token that leads
  on (`State.onward`) brings it one closer, and reductions leave it as it is.
-/

namespace CallGraph

/-- All rules. -/
def Rule.all : List Rule :=
  [noStatements, moreStatements, nodeStatement, edgeStatement, settingStatement, emptyStatement,
    node, noAssignments, assignmentList, assignmentListComma, firstAssignment, moreAssignments,
    assignment, textValue, numberValue, wordValue, edge, explicitHead, implicitHead, noOptions,
    moreOptions, noPayload, payload, setting]

theorem Rule.mem_all (rule : Rule) : rule ∈ all := by
  cases rule <;> decide

/-- All symbols. -/
def Symbol.all : List Symbol := Terminal.all.map terminal ++ Nonterminal.all.map nonterminal

theorem Symbol.mem_all (x : Symbol) : x ∈ all := by
  cases x with
  | terminal t => exact List.mem_append_left _ (List.mem_map_of_mem t.mem_all)
  | nonterminal n => exact List.mem_append_right _ (List.mem_map_of_mem n.mem_all)

namespace State

theorem mem_all (s : State) : s ∈ all := by
  cases s <;> decide

/-! ### Transitions -/

/-- The state behind one more symbol. -/
def next? (s : State) : Symbol → Option State
  | .terminal t =>
    match s.action t with
    | .shift next => some next
    | _ => none
  | .nonterminal n => s.goto? n

/-- The state behind more symbols in a row. -/
def along? (s : State) : List Symbol → Option State
  | [] => some s
  | x :: xs => (s.next? x).bind fun next => next.along? xs

theorem next?_terminal {s next : State} {t : Terminal} :
    s.next? (.terminal t) = some next ↔ s.action t = .shift next := by
  rw [next?]
  split
  · rename_i other h
    rw [h, Option.some.injEq, Action.shift.injEq]
  · rename_i h
    simp only [reduceCtorEq, false_iff]
    exact h next

theorem along?_cons {s next : State} {x : Symbol} (h : s.next? x = some next) (xs : List Symbol) :
    s.along? (x :: xs) = next.along? xs := by
  rw [along?, h, Option.bind_some]

theorem along?_append {s middle : State} {xs : List Symbol} (h : s.along? xs = some middle)
    (ys : List Symbol) : s.along? (xs ++ ys) = middle.along? ys := by
  induction xs generalizing s with
  | nil =>
    obtain rfl := Option.some.inj h
    rfl
  | cons x xs ih =>
    obtain ⟨next, hnext, hrest⟩ := Option.bind_eq_some_iff.1 h
    rw [List.cons_append, along?_cons hnext, ih hrest]

/-! ### What has been read -/

/-- The symbols that have been read whenever the state is on top of the stack: the part of its
rules that lies behind. -/
def reading : State → List Symbol
  | start => []
  | statements => [.nonterminal .statements]
  | semicolon => [.terminal .semicolon]
  | dot => [.terminal .dot]
  | name => [.terminal .identifier]
  | arrow => [.terminal .arrow]
  | statement => [.nonterminal .statements, .nonterminal .statement]
  | node => [.nonterminal .node]
  | edge => [.nonterminal .edge]
  | setting => [.nonterminal .setting]
  | edgeHead => [.nonterminal .edgeHead]
  | nodeName => [.terminal .dot, .terminal .identifier]
  | nameArrow => [.terminal .identifier, .terminal .arrow]
  | nameEquals => [.terminal .identifier, .terminal .equals]
  | arrowTarget => [.terminal .arrow, .terminal .identifier]
  | edgeSemicolon => [.nonterminal .edge, .terminal .semicolon]
  | settingSemicolon => [.nonterminal .setting, .terminal .semicolon]
  | options => [.nonterminal .edgeHead, .nonterminal .options]
  | bracket => [.terminal .dot, .terminal .identifier, .terminal .leftBracket]
  | nameArrowTarget => [.terminal .identifier, .terminal .arrow, .terminal .identifier]
  | textValue => [.terminal .text]
  | numberValue => [.terminal .number]
  | wordValue => [.terminal .identifier]
  | settingValue => [.terminal .identifier, .terminal .equals, .nonterminal .value]
  | key => [.terminal .identifier]
  | block => [.terminal .block]
  | payload => [.nonterminal .edgeHead, .nonterminal .options, .nonterminal .payload]
  | option => [.nonterminal .options, .nonterminal .assignment]
  | assignmentList =>
    [.terminal .dot, .terminal .identifier, .terminal .leftBracket, .nonterminal .assignmentList]
  | assignments => [.nonterminal .assignments]
  | assignment => [.nonterminal .assignment]
  | keyEquals => [.terminal .identifier, .terminal .equals]
  | bracketClosed =>
    [.terminal .dot, .terminal .identifier, .terminal .leftBracket, .nonterminal .assignmentList,
      .terminal .rightBracket]
  | assignmentsComma => [.nonterminal .assignments, .terminal .comma]
  | keyValue => [.terminal .identifier, .terminal .equals, .nonterminal .value]
  | nextAssignment => [.nonterminal .assignments, .terminal .comma, .nonterminal .assignment]

/-! ### Where transitions lead -/

/-- **One sweep through all transitions.**

* What has been read grows by one symbol, which is not the end.
* Nothing leads to the start, and nothing is read behind a statement.
* Only the start leads between two statements, by statements that have been read.
* From between two statements one more statement leads behind a statement, and nothing else does. -/
theorem transition_sweep {s next : State} {x : Symbol} (h : s.next? x = some next) :
    (next.reading <:+ s.reading ++ [x] ∧ x ≠ .terminal .endOfInput) ∧
      (next ≠ start ∧ s ≠ statement) ∧
      (next = statements → s = start ∧ x = .nonterminal .statements) ∧
      (next = statement → s = statements ∧ x = .nonterminal .statement) ∧
      (s ≠ start → x = .nonterminal .statements ∨ x = .nonterminal .statement →
        next = statement) := by
  have sweep : ∀ s ∈ all, ∀ x ∈ Symbol.all, ∀ next ∈ s.next? x,
      (next.reading <:+ s.reading ++ [x] ∧ x ≠ .terminal .endOfInput) ∧
        (next ≠ start ∧ s ≠ statement) ∧
        (next = statements → s = start ∧ x = .nonterminal .statements) ∧
        (next = statement → s = statements ∧ x = .nonterminal .statement) ∧
        (s ≠ start → x = .nonterminal .statements ∨ x = .nonterminal .statement →
          next = statement) := by decide +kernel
  exact sweep s s.mem_all x x.mem_all next h

theorem reading_next? {s next : State} {x : Symbol} (h : s.next? x = some next) :
    next.reading <:+ s.reading ++ [x] :=
  (transition_sweep h).1.1

theorem next?_ne_start {s next : State} {x : Symbol} (h : s.next? x = some next) :
    next ≠ start :=
  (transition_sweep h).2.1.1

/-- Only the start leads between two statements, and only by statements that have been read. -/
theorem eq_start_of_next? {s : State} {x : Symbol} (h : s.next? x = some statements) :
    s = start ∧ x = .nonterminal .statements :=
  (transition_sweep h).2.2.1 rfl

/-- Only a statement that has been read leads behind a statement, from between two of them. -/
theorem eq_statements_of_next? {s : State} {x : Symbol} (h : s.next? x = some statement) :
    s = statements ∧ x = .nonterminal .statement :=
  (transition_sweep h).2.2.2.1 rfl

/-- Statements are read from the start, and one statement from between two of them. -/
theorem eq_statement_of_next? {s next : State} {x : Symbol} (h : s.next? x = some next)
    (hs : s ≠ start) (hx : x = .nonterminal .statements ∨ x = .nonterminal .statement) :
    next = statement :=
  (transition_sweep h).2.2.2.2 hs hx

/-- Nothing is read behind a statement. -/
theorem next?_statement (x : Symbol) : statement.next? x = none := by
  cases h : statement.next? x with
  | none => rfl
  | some next => exact absurd rfl (transition_sweep h).2.1.2

/-- The end is not taken. -/
theorem action_endOfInput_ne_shift (s next : State) : s.action .endOfInput ≠ .shift next := by
  intro h
  exact (transition_sweep (next?_terminal.2 h)).1.2 rfl

/-! ### What actions do -/

/-- **One sweep through all actions.**

* A text ends between two statements.
* A state that reduces by a rule has just read the right-hand side.
* Between two statements nothing is reduced, and one more statement only behind a statement. -/
theorem action_sweep (s : State) (t : Terminal) :
    (s.action t = .accept → s = statements ∧ t = .endOfInput) ∧
      ∀ rule, s.action t = .reduce rule →
        rule.rhs <:+ s.reading ∧ s ≠ statements ∧ (rule = .moreStatements → s = statement) := by
  have sweep : ∀ s ∈ all, ∀ t ∈ Terminal.all,
      (s.action t = .accept → s = statements ∧ t = .endOfInput) ∧
        ∀ rule ∈ Rule.all, s.action t = .reduce rule →
          rule.rhs <:+ s.reading ∧ s ≠ statements ∧ (rule = .moreStatements → s = statement) := by
    decide +kernel
  obtain ⟨haccept, hreduce⟩ := sweep s s.mem_all t t.mem_all
  exact ⟨haccept, fun rule => hreduce rule rule.mem_all⟩

theorem action_accept {s : State} {t : Terminal} (h : s.action t = .accept) :
    s = statements ∧ t = .endOfInput :=
  (s.action_sweep t).1 h

/-- A state that reduces by a rule has just read the right-hand side. -/
theorem rhs_suffix_reading {s : State} {t : Terminal} {rule : Rule}
    (h : s.action t = .reduce rule) : rule.rhs <:+ s.reading :=
  ((s.action_sweep t).2 rule h).1

/-- Between two statements nothing is reduced. -/
theorem action_statements_ne_reduce (t : Terminal) (rule : Rule) :
    statements.action t ≠ .reduce rule := by
  intro h
  exact ((statements.action_sweep t).2 rule h).2.1 rfl

end State

/-! ### Where a nonterminal may stand -/

/-- Whether the terminal may follow the nonterminal.  Only a nonterminal that can end in a reduction
on sight of the next terminal is particular about it. -/
def Nonterminal.permits : Nonterminal → Terminal → Bool
  | .payload, t | .edge, t => t = .semicolon
  | .assignmentList, t => t = .rightBracket
  | _, _ => true

/-- Whether the terminal may follow the symbol. -/
def Symbol.permits : Symbol → Terminal → Bool
  | .terminal _, _ => true
  | .nonterminal n, t => n.permits t

/-- Whether the terminal may follow the symbols, and each of them may be followed by the next. -/
def permitsRow : List Symbol → Terminal → Bool
  | [], _ => true
  | [x], t => x.permits t
  | x :: .terminal u :: xs, t => x.permits u && permitsRow (.terminal u :: xs) t
  | x :: y :: xs, t => Terminal.all.all x.permits && permitsRow (y :: xs) t

theorem permitsRow_tail {x : Symbol} {xs : List Symbol} {t : Terminal}
    (h : permitsRow (x :: xs) t = true) : permitsRow xs t = true := by
  match xs with
  | [] => rfl
  | .terminal _ :: _ => exact (Bool.and_eq_true_iff.1 h).2
  | .nonterminal _ :: _ => exact (Bool.and_eq_true_iff.1 h).2

theorem permitsRow_rhs {rule : Rule} {t : Terminal} (h : rule.lhs.permits t = true) :
    permitsRow rule.rhs t = true := by
  cases rule <;> first | rfl | (cases t <;> first | rfl | exact h)

namespace State

/-! ### How far the end of the statement is -/

/-- How many tokens are missing to the end of the statement, at least. -/
def distance : State → Nat
  | semicolon | edgeSemicolon | settingSemicolon | bracketClosed | node | statement => 0
  | nodeName | nameEquals | nameArrow | arrow | keyEquals => 2
  | dot | name | key => 3
  | _ => 1

/-- A terminal that leads on to the end of the statement. -/
def onward : State → Terminal
  | dot | arrow | nameArrow => .identifier
  | name | key => .equals
  | nameEquals | keyEquals => .number
  | nodeName => .leftBracket
  | bracket | assignmentList | assignments | assignmentsComma => .rightBracket
  | _ => .semicolon

/-! ### What reductions do -/

/-- **One sweep through all reductions.**

* Wherever a right-hand side has been read and is reduced, there is a state to go on to, which is no
  closer to the end of the statement, unless it is behind one.
* Wherever a nonterminal may stand, each of its right-hand sides can be read, and is reduced before
  each terminal that may follow. -/
theorem reduction_sweep (below : State) (rule : Rule) :
    (∀ s, below.along? rule.rhs = some s → ∀ t, s.action t = .reduce rule →
      ∃ next, below.goto? rule.lhs = some next ∧
        (rule ≠ .moreStatements → next.distance = s.distance)) ∧
      ∀ next, below.goto? rule.lhs = some next → ∃ s, below.along? rule.rhs = some s ∧
        ∀ t, rule.lhs.permits t = true → s.action t = .reduce rule := by
  have sweep : ∀ below ∈ all, ∀ rule ∈ Rule.all,
      (∀ s ∈ below.along? rule.rhs, ∀ t ∈ Terminal.all, s.action t = .reduce rule →
        ∃ next ∈ below.goto? rule.lhs,
          rule ≠ .moreStatements → next.distance = s.distance) ∧
        ∀ next ∈ below.goto? rule.lhs, ∃ s ∈ below.along? rule.rhs, ∀ t ∈ Terminal.all,
          rule.lhs.permits t = true → s.action t = .reduce rule := by decide +kernel
  obtain ⟨hgoto, halong⟩ := sweep below below.mem_all rule rule.mem_all
  refine ⟨fun s hread t => hgoto s hread t t.mem_all, fun next hnext => ?_⟩
  obtain ⟨s, hread, hreduces⟩ := halong next hnext
  exact ⟨s, hread, fun t => hreduces t t.mem_all⟩

/-- Wherever a right-hand side has been read and is reduced, there is a state to go on to. -/
theorem goto?_of_reduces {below s : State} {t : Terminal} {rule : Rule}
    (hread : below.along? rule.rhs = some s) (h : s.action t = .reduce rule) :
    ∃ next, below.goto? rule.lhs = some next := by
  obtain ⟨next, hnext, -⟩ := (below.reduction_sweep rule).1 s hread t h
  exact ⟨next, hnext⟩

/-- A reduction within a statement leaves the distance as it is. -/
theorem distance_goto? {below s next : State} {t : Terminal} {rule : Rule}
    (hread : below.along? rule.rhs = some s) (h : s.action t = .reduce rule)
    (hnext : below.goto? rule.lhs = some next) (hrule : rule ≠ .moreStatements) :
    next.distance = s.distance := by
  obtain ⟨next', hnext', hdistance⟩ := (below.reduction_sweep rule).1 s hread t h
  rw [hnext] at hnext'
  rw [Option.some.inj hnext']
  exact hdistance hrule

/-- Wherever a nonterminal may stand, each of its right-hand sides can be read, and is reduced
before each terminal that may follow. -/
theorem along?_rhs_of_goto? {below next : State} {rule : Rule}
    (h : below.goto? rule.lhs = some next) :
    ∃ s, below.along? rule.rhs = some s ∧
      ∀ t, rule.lhs.permits t = true → s.action t = .reduce rule :=
  (below.reduction_sweep rule).2 next h

theorem distance_of_moreStatements {s : State} {t : Terminal}
    (h : s.action t = .reduce .moreStatements) : s.distance = 0 := by
  rw [((s.action_sweep t).2 _ h).2.2 rfl]
  rfl

/-- There is always a way on: a reduction, or a token that brings the end one closer. -/
theorem action_onward (s : State) (hstatement : s ≠ statement) :
    (∃ rule, s.action s.onward = .reduce rule ∧ rule ≠ .moreStatements) ∨
      ∃ next, s.action s.onward = .shift next ∧ next.distance + 1 = s.distance := by
  cases s with
  | statement => exact absurd rfl hstatement
  | _ =>
    first
    | exact Or.inl ⟨_, rfl, by decide⟩
    | exact Or.inr ⟨_, rfl, by decide⟩

/-- Behind a statement there is nothing but its reduction. -/
theorem reduces_of_distance {s : State} (t : Terminal) (h : s.distance = 0) :
    ∃ rule, s.action t = .reduce rule ∧ (rule = .moreStatements → s = statement) := by
  cases s with
  | semicolon => exact ⟨.emptyStatement, rfl, by decide⟩
  | edgeSemicolon => exact ⟨.edgeStatement, rfl, by decide⟩
  | settingSemicolon => exact ⟨.settingStatement, rfl, by decide⟩
  | bracketClosed => exact ⟨.node, rfl, by decide⟩
  | node => exact ⟨.nodeStatement, rfl, by decide⟩
  | statement => exact ⟨.moreStatements, rfl, fun _ => rfl⟩
  | _ => exact absurd h (by decide)

end State

end CallGraph
