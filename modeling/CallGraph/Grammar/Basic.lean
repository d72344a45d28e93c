/-!
# The grammar

The language is given by terminals, nonterminals and rules:

    statements   := statements statement | (nothing)
    statement    := node | edge ';' | setting ';' | ';'
    node         := '.' identifier '[' assignmentList ']'
    assignmentList := assignments | assignments ',' | (nothing)
    assignments   := assignments ',' assignment | assignment
    assignment    := identifier '=' value
    value        := string | number | identifier
    edge         := edgeHead options payload
    edgeHead     := identifier '->' identifier | '->' identifier
    options      := options assignment | (nothing)
    payload      := block | (nothing)
    setting      := identifier '=' value

Each `Rule` is one alternative; `Rule.lhs` and `Rule.rhs` are its two sides.
-/

namespace CallGraph

/-- The symbols that tokens stand for. -/
inductive Terminal where
  | dot
  | identifier
  | text
  | number
  | arrow
  | equals
  | comma
  | leftBracket
  | rightBracket
  | semicolon
  | block
  | endOfInput
deriving DecidableEq

namespace Terminal

/-- All terminals, in the order in which messages list them. -/
def all : List Terminal :=
  [dot, identifier, text, number, arrow, equals, comma, leftBracket, rightBracket, semicolon,
    block, endOfInput]

/-- How a message names the terminal. -/
def name : Terminal → String
  | dot => "`.`"
  | identifier => "identifier"
  | text => "string"
  | number => "number"
  | arrow => "`->`"
  | equals => "`=`"
  | comma => "`,`"
  | leftBracket => "`[`"
  | rightBracket => "`]`"
  | semicolon => "`;`"
  | block => "payload"
  | endOfInput => "end of input"

theorem mem_all (t : Terminal) : t ∈ all := by
  cases t <;> decide

end Terminal

/-- The symbols that rules define. -/
inductive Nonterminal where
  | statements
  | statement
  | node
  | assignmentList
  | assignments
  | assignment
  | value
  | edge
  | edgeHead
  | options
  | payload
  | setting
deriving DecidableEq

namespace Nonterminal

/-- All nonterminals. -/
def all : List Nonterminal :=
  [statements, statement, node, assignmentList, assignments, assignment, value, edge, edgeHead,
    options, payload, setting]

theorem mem_all (n : Nonterminal) : n ∈ all := by
  cases n <;> decide

end Nonterminal

/-- A symbol on the right-hand side of a rule. -/
inductive Symbol where
  | terminal (t : Terminal)
  | nonterminal (n : Nonterminal)
deriving DecidableEq

/-- The alternatives of the grammar. -/
inductive Rule where
  | noStatements
  | moreStatements
  | nodeStatement
  | edgeStatement
  | settingStatement
  | emptyStatement
  | node
  | noAssignments
  | assignmentList
  | assignmentListComma
  | firstAssignment
  | moreAssignments
  | assignment
  | textValue
  | numberValue
  | wordValue
  | edge
  | explicitHead
  | implicitHead
  | noOptions
  | moreOptions
  | noPayload
  | payload
  | setting
deriving DecidableEq

namespace Rule

/-- The nonterminal that the rule defines. -/
def lhs : Rule → Nonterminal
  | noStatements | moreStatements => .statements
  | nodeStatement | edgeStatement | settingStatement | emptyStatement => .statement
  | node => .node
  | noAssignments | assignmentList | assignmentListComma => .assignmentList
  | firstAssignment | moreAssignments => .assignments
  | assignment => .assignment
  | textValue | numberValue | wordValue => .value
  | edge => .edge
  | explicitHead | implicitHead => .edgeHead
  | noOptions | moreOptions => .options
  | noPayload | payload => .payload
  | setting => .setting

/-- What the nonterminal may stand for. -/
def rhs : Rule → List Symbol
  | noStatements | noAssignments | noOptions | noPayload => []
  | moreStatements => [.nonterminal .statements, .nonterminal .statement]
  | nodeStatement => [.nonterminal .node]
  | edgeStatement => [.nonterminal .edge, .terminal .semicolon]
  | settingStatement => [.nonterminal .setting, .terminal .semicolon]
  | emptyStatement => [.terminal .semicolon]
  | node =>
    [.terminal .dot, .terminal .identifier, .terminal .leftBracket, .nonterminal .assignmentList,
      .terminal .rightBracket]
  | assignmentList => [.nonterminal .assignments]
  | assignmentListComma => [.nonterminal .assignments, .terminal .comma]
  | firstAssignment => [.nonterminal .assignment]
  | moreAssignments => [.nonterminal .assignments, .terminal .comma, .nonterminal .assignment]
  | assignment | setting => [.terminal .identifier, .terminal .equals, .nonterminal .value]
  | textValue => [.terminal .text]
  | numberValue => [.terminal .number]
  | wordValue => [.terminal .identifier]
  | edge => [.nonterminal .edgeHead, .nonterminal .options, .nonterminal .payload]
  | explicitHead => [.terminal .identifier, .terminal .arrow, .terminal .identifier]
  | implicitHead => [.terminal .arrow, .terminal .identifier]
  | moreOptions => [.nonterminal .options, .nonterminal .assignment]
  | payload => [.terminal .block]

/-- The number of symbols on the right-hand side. -/
def length (r : Rule) : Nat := r.rhs.length

end Rule

end CallGraph
