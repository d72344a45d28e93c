import CallGraph.Grammar.Basic

/-!
# The tables of the shift/reduce parser

A `State` says which part of a statement has been read.  The tables tell what to do next:

* `State.complete?` — a state in which a whole right-hand side has been read reduces by that rule,
  whatever comes next;
* `State.action` — otherwise the next terminal decides;
* `State.goto?` — where to go on once a nonterminal has been read.

`State.rank` falls with every reduction (`rank_goto_lt`), so only finitely many reductions can
follow each other before a token is taken.
-/

namespace CallGraph

/-- How far the parser has read. -/
inductive State where
  /-- Nothing has been read. -/
  | start
  /-- Between two statements. -/
  | statements
  | semicolon
  | dot
  | name
  | arrow
  | statement
  | node
  | edge
  | setting
  | edgeHead
  | nodeName
  | nameArrow
  | nameEquals
  | arrowTarget
  | edgeSemicolon
  | settingSemicolon
  | options
  | bracket
  | nameArrowTarget
  | textValue
  | numberValue
  | wordValue
  | settingValue
  | key
  | block
  | payload
  | option
  | assignmentList
  | assignments
  | assignment
  | keyEquals
  | bracketClosed
  | assignmentsComma
  | keyValue
  | nextAssignment
deriving DecidableEq

/-- What the parser does next. -/
inductive Action where
  /-- Take the token and go to the state. -/
  | shift (next : State)
  /-- Replace a right-hand side by the nonterminal of its rule. -/
  | reduce (rule : Rule)
  /-- The input is complete. -/
  | accept
  /-- The token cannot stand here. -/
  | refuse
deriving DecidableEq

namespace State

/-- All states, by ascending number. -/
def all : List State :=
  [start, statements, semicolon, dot, name, arrow, statement, node, edge, setting, edgeHead,
    nodeName, nameArrow, nameEquals, arrowTarget, edgeSemicolon, settingSemicolon, options,
    bracket, nameArrowTarget, textValue, numberValue, wordValue, settingValue, key, block,
    payload, option, assignmentList, assignments, assignment, keyEquals, bracketClosed,
    assignmentsComma, keyValue, nextAssignment]

/-- The number of the state. -/
def index (s : State) : Nat := all.idxOf s

/-- The state of a number. -/
def ofIndex? (n : Nat) : Option State := all[n]?

/-- The rule whose right-hand side has been read completely, so that nothing else can be done. -/
def complete? : State → Option Rule
  | start => some .noStatements
  | semicolon => some .emptyStatement
  | statement => some .moreStatements
  | node => some .nodeStatement
  | edgeHead => some .noOptions
  | arrowTarget => some .implicitHead
  | edgeSemicolon => some .edgeStatement
  | settingSemicolon => some .settingStatement
  | nameArrowTarget => some .explicitHead
  | textValue => some .textValue
  | numberValue => some .numberValue
  | wordValue => some .wordValue
  | settingValue => some .setting
  | block => some .payload
  | payload => some .edge
  | option => some .moreOptions
  | assignment => some .firstAssignment
  | bracketClosed => some .node
  | keyValue => some .assignment
  | nextAssignment => some .moreAssignments
  | _ => none

/-- What the next terminal decides in a state that is not complete. -/
def consult : State → Terminal → Action
  | statements, .endOfInput => .accept
  | statements, .semicolon => .shift semicolon
  | statements, .dot => .shift dot
  | statements, .identifier => .shift name
  | statements, .arrow => .shift arrow
  | dot, .identifier => .shift nodeName
  | name, .arrow => .shift nameArrow
  | name, .equals => .shift nameEquals
  | arrow, .identifier => .shift arrowTarget
  | edge, .semicolon => .shift edgeSemicolon
  | setting, .semicolon => .shift settingSemicolon
  | nodeName, .leftBracket => .shift bracket
  | nameArrow, .identifier => .shift nameArrowTarget
  | nameEquals, .text | keyEquals, .text => .shift textValue
  | nameEquals, .number | keyEquals, .number => .shift numberValue
  | nameEquals, .identifier | keyEquals, .identifier => .shift wordValue
  | options, .identifier => .shift key
  | options, .block => .shift block
  | options, .semicolon => .reduce .noPayload
  | bracket, .identifier => .shift key
  | bracket, .rightBracket => .reduce .noAssignments
  | key, .equals => .shift keyEquals
  | assignmentList, .rightBracket => .shift bracketClosed
  | assignments, .rightBracket => .reduce .assignmentList
  | assignments, .comma => .shift assignmentsComma
  | assignmentsComma, .rightBracket => .reduce .assignmentListComma
  | assignmentsComma, .identifier => .shift key
  | _, _ => .refuse

/-- What to do in a state when a terminal comes next. -/
def action (s : State) (t : Terminal) : Action :=
  match s.complete? with
  | some rule => .reduce rule
  | none => s.consult t

/-- Where to go on when a nonterminal has been read in a state. -/
def goto? : State → Nonterminal → Option State
  | start, .statements => some statements
  | statements, .statement => some statement
  | statements, .node => some node
  | statements, .edge => some edge
  | statements, .setting => some setting
  | statements, .edgeHead => some edgeHead
  | edgeHead, .options => some options
  | nameEquals, .value => some settingValue
  | options, .payload => some payload
  | options, .assignment => some option
  | bracket, .assignmentList => some assignmentList
  | bracket, .assignments => some assignments
  | bracket, .assignment => some assignment
  | keyEquals, .value => some keyValue
  | assignmentsComma, .assignment => some nextAssignment
  | _, _ => none

/-- The terminals that can stand next, in the order of `Terminal.all`. -/
def expected (s : State) : List Terminal :=
  Terminal.all.filter fun t => s.action t ≠ .refuse

/-- How many reductions can follow each other from the state on, at most. -/
def rank : State → Nat
  | textValue | numberValue | wordValue => 5
  | arrowTarget | nameArrowTarget | keyValue => 4
  | edgeHead | option | bracketClosed => 3
  | semicolon | node | edgeSemicolon | settingSemicolon | options | block | assignment
  | nextAssignment => 2
  | start | statement | payload | assignments | assignmentsComma | bracket | settingValue => 1
  | _ => 0

/-- The rank falls with every reduction, whatever state is exposed by it. -/
theorem rank_goto_lt {s exposed next : State} {t : Terminal} {rule : Rule}
    (reduces : s.action t = .reduce rule) (goes : exposed.goto? rule.lhs = some next) :
    next.rank < s.rank := by
  have hlhs : ∀ n : Nonterminal, exposed.goto? n = some next →
      match n with
      | .statements => next = statements
      | .statement => next = statement
      | .node => next = node
      | .assignmentList => next = assignmentList
      | .assignments => next = assignments
      | .assignment => next = option ∨ next = assignment ∨ next = nextAssignment
      | .value => next = settingValue ∨ next = keyValue
      | .edge => next = edge
      | .edgeHead => next = edgeHead
      | .options => next = options
      | .payload => next = payload
      | .setting => next = setting := by
    intro n h
    cases exposed <;> cases n <;> simp_all [goto?]
  have hn := hlhs rule.lhs goes
  clear hlhs goes
  cases s <;> cases t <;> simp [action, complete?, consult] at reduces <;> subst reduces <;>
    simp only [Rule.lhs] at hn <;> rcases hn with rfl | rfl | rfl <;> decide

end State

end CallGraph
