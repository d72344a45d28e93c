import CallGraph.Grammar.Basic
import CallGraph.Parser.SyntaxError
import CallGraph.Statement

/-!
# Derivations

A `Derivation x` derives a word of tokens from the symbol `x`: a token that stands for a terminal,
or a rule whose right-hand side is derived symbol by symbol.  What the word means is read off the
derivation, not off the tables of the parser:

* `Derivation.word` — the tokens derived, from left to right;
* `Rule.content` — what the left-hand side of a rule means, given the right-hand side;
* `Derivation.content` — what a whole derivation means; for `statements` that is the list of
  statements in source order;
* `Derivation.events_branch` — a derivation hands over what its parts hand over, and then the
  statement that it completes itself, if it completes one.
-/

namespace CallGraph

/-! ### What symbols mean -/

/-- What a token tells beyond the terminal that it stands for. -/
def Terminal.Data : Terminal → Type
  | .identifier | .text | .block => Located String
  | .number => Located Int
  | _ => Unit

/-- What a token tells.  The text of a payload starts behind the opening brace. -/
def Token.data (token : Token) {t : Terminal} (stands : token.kind.terminal = .ok t) : t.Data :=
  match token, t, stands with
  | ⟨.identifier name, _, span⟩, _, rfl => Located.mk name span
  | ⟨.text said, _, span⟩, _, rfl => Located.mk said span
  | ⟨.number value, _, span⟩, _, rfl => Located.mk value span
  | ⟨.payload inner, _, span⟩, _, rfl =>
    Located.mk inner (.ofText (span.location.step '\x7b') inner.toList)
  | ⟨.dot, _, _⟩, _, rfl => ()
  | ⟨.arrow, _, _⟩, _, rfl => ()
  | ⟨.equals, _, _⟩, _, rfl => ()
  | ⟨.comma, _, _⟩, _, rfl => ()
  | ⟨.leftBracket, _, _⟩, _, rfl => ()
  | ⟨.rightBracket, _, _⟩, _, rfl => ()
  | ⟨.semicolon, _, _⟩, _, rfl => ()
  | ⟨.endOfInput, _, _⟩, _, rfl => ()

/-- What a nonterminal means.  An empty statement says nothing. -/
def Nonterminal.Content : Nonterminal → Type
  | .statements => List Event
  | .statement => Option Event
  | .node => NodeStatement
  | .assignmentList | .assignments | .options => List Assignment
  | .assignment | .setting => Assignment
  | .value => Located Value
  | .edge => EdgeStatement
  | .edgeHead => Option (Located String) × Located String
  | .payload => Option (Located String)

/-- What a symbol means. -/
def Symbol.Content : Symbol → Type
  | .terminal t => t.Data
  | .nonterminal n => n.Content

/-- What symbols in a row mean. -/
def Contents : List Symbol → Type
  | [] => Unit
  | x :: xs => x.Content × Contents xs

/-- What the left-hand side of a rule means, given what the right-hand side means and the span that
it covers. -/
def Rule.content : (rule : Rule) → Span → Contents rule.rhs → rule.lhs.Content
  | .noStatements, _, _ => ([] : List Event)
  | .moreStatements, _, (before, last, _) => List.append before (Option.toList last)
  | .nodeStatement, _, (declared, _) => some (Event.node declared)
  | .edgeStatement, _, (declared, _) => some (Event.edge declared)
  | .settingStatement, _, (assigned, _) => some (Event.setting assigned)
  | .emptyStatement, _, _ => (none : Option Event)
  | .node, span, (_, name, _, attributes, _) => NodeStatement.mk name attributes span
  | .noAssignments, _, _ => ([] : List Assignment)
  | .assignmentList, _, (given, _) => given
  | .assignmentListComma, _, (given, _) => given
  | .firstAssignment, _, (first, _) => ([first] : List Assignment)
  | .moreAssignments, _, (before, _, last, _) => List.append before [last]
  | .assignment, _, (key, _, assigned, _) => Assignment.mk key assigned
  | .textValue, _, (⟨said, span⟩, _) => Located.mk (Value.text said) span
  | .numberValue, _, (⟨n, span⟩, _) => Located.mk (Value.number n) span
  | .wordValue, _, (⟨name, span⟩, _) => Located.mk (Value.word name) span
  | .edge, span, (ends, given, sent, _) => EdgeStatement.mk ends.1 ends.2 given sent span
  | .explicitHead, _, (source, _, target, _) => (some source, target)
  | .implicitHead, _, (_, target, _) => (none, target)
  | .noOptions, _, _ => ([] : List Assignment)
  | .moreOptions, _, (before, last, _) => List.append before [last]
  | .noPayload, _, _ => (none : Option (Located String))
  | .payload, _, (sent, _) => some sent
  | .setting, _, (key, _, assigned, _) => Assignment.mk key assigned

/-! ### Derivations and their words -/

mutual

/-- A derivation from a symbol. -/
inductive Derivation : Symbol → Type where
  /-- A token that stands for a terminal. -/
  | leaf {t : Terminal} (token : Token) (stands : token.kind.terminal = .ok t) :
    Derivation (.terminal t)
  /-- A rule with a derivation from each symbol of its right-hand side. -/
  | branch (rule : Rule) (children : Forest rule.rhs) : Derivation (.nonterminal rule.lhs)

/-- Derivations from symbols in a row. -/
inductive Forest : List Symbol → Type where
  | nil : Forest []
  | cons {x : Symbol} {xs : List Symbol} (first : Derivation x) (rest : Forest xs) :
    Forest (x :: xs)

end

mutual

/-- The tokens derived. -/
def Derivation.word : {x : Symbol} → Derivation x → List Token
  | _, .leaf token _ => [token]
  | _, .branch _ children => children.word

/-- The tokens derived, one derivation after the other. -/
def Forest.word : {xs : List Symbol} → Forest xs → List Token
  | _, .nil => []
  | _, .cons first rest => first.word ++ rest.word

end

mutual

/-- No token of a derivation is a mistake. -/
theorem Derivation.exists_terminal : {x : Symbol} → (d : Derivation x) → {token : Token} →
    token ∈ d.word → ∃ t, token.kind.terminal = .ok t
  | _, .leaf _ stands, _, h => ⟨_, (List.mem_singleton.1 h) ▸ stands⟩
  | _, .branch _ children, _, h => children.exists_terminal h

/-- No token of derivations in a row is a mistake. -/
theorem Forest.exists_terminal : {xs : List Symbol} → (f : Forest xs) → {token : Token} →
    token ∈ f.word → ∃ t, token.kind.terminal = .ok t
  | _, .nil, _, h => absurd h List.not_mem_nil
  | _, .cons first rest, _, h =>
    (List.mem_append.1 h).elim first.exists_terminal rest.exists_terminal

end

/-- The span that a word covers. -/
def spanOf (word : List Token) : Span := (Span.cover? (word.map Token.span)).getD default

mutual

/-- What a derivation means. -/
def Derivation.content : {x : Symbol} → Derivation x → x.Content
  | _, .leaf token stands => token.data stands
  | _, .branch rule children => rule.content (spanOf children.word) children.contents

/-- What the derivations in a row mean. -/
def Forest.contents : {xs : List Symbol} → Forest xs → Contents xs
  | _, .nil => ()
  | _, .cons first rest => (first.content, rest.contents)

end

/-! ### Statements -/

/-- What is handed over on account of a symbol that means this. -/
def Symbol.events : (x : Symbol) → x.Content → List Event
  | .nonterminal .statements, said => said
  | .nonterminal .statement, said => Option.toList said
  | _, _ => []

/-- The statements that a derivation hands over. -/
def Derivation.events {x : Symbol} (d : Derivation x) : List Event := x.events d.content

/-- The statements that derivations in a row hand over. -/
def Forest.events : {xs : List Symbol} → Forest xs → List Event
  | _, .nil => []
  | _, .cons first rest => first.events ++ rest.events

/-- The statement that a rule completes, given what its right-hand side means. -/
def Rule.completes : (rule : Rule) → Contents rule.rhs → List Event
  | .nodeStatement, (declared, _) => [Event.node declared]
  | .edgeStatement, (declared, _) => [Event.edge declared]
  | .settingStatement, (assigned, _) => [Event.setting assigned]
  | _, _ => []

/-- **What a rule hands over.**  The parts hand over what they complete, and the rule adds the
statement that it completes itself. -/
theorem Derivation.events_branch : (rule : Rule) → (children : Forest rule.rhs) →
    (Derivation.branch rule children).events =
      children.events ++ rule.completes children.contents
  | .moreStatements, .cons before (.cons last .nil) => by
    show List.append before.content (Option.toList last.content) = _
    simp only [Forest.events, List.append_nil, Rule.completes]
    rfl
  | .noStatements, .nil => rfl
  | .nodeStatement, .cons _ .nil => rfl
  | .edgeStatement, .cons _ (.cons _ .nil) => rfl
  | .settingStatement, .cons _ (.cons _ .nil) => rfl
  | .emptyStatement, .cons _ .nil => rfl
  | .node, .cons _ (.cons _ (.cons _ (.cons _ (.cons _ .nil)))) => rfl
  | .noAssignments, .nil => rfl
  | .assignmentList, .cons _ .nil => rfl
  | .assignmentListComma, .cons _ (.cons _ .nil) => rfl
  | .firstAssignment, .cons _ .nil => rfl
  | .moreAssignments, .cons _ (.cons _ (.cons _ .nil)) => rfl
  | .assignment, .cons _ (.cons _ (.cons _ .nil)) => rfl
  | .textValue, .cons _ .nil => rfl
  | .numberValue, .cons _ .nil => rfl
  | .wordValue, .cons _ .nil => rfl
  | .edge, .cons _ (.cons _ (.cons _ .nil)) => rfl
  | .explicitHead, .cons _ (.cons _ (.cons _ .nil)) => rfl
  | .implicitHead, .cons _ (.cons _ .nil) => rfl
  | .noOptions, .nil => rfl
  | .moreOptions, .cons _ (.cons _ .nil) => rfl
  | .noPayload, .nil => rfl
  | .payload, .cons _ .nil => rfl
  | .setting, .cons _ (.cons _ (.cons _ .nil)) => rfl

theorem Rule.report_not_mem_completes (rule : Rule) (contents : Contents rule.rhs)
    (finding : Diagnostic) : Event.report finding ∉ rule.completes contents := by
  intro h
  cases rule with
  | nodeStatement | edgeStatement | settingStatement =>
    obtain ⟨said, _⟩ := contents
    exact Event.noConfusion (List.mem_singleton.1 h)
  | _ => exact absurd h List.not_mem_nil

mutual

/-- A derivation hands over statements only. -/
theorem Derivation.report_not_mem (finding : Diagnostic) : {x : Symbol} → (d : Derivation x) →
    Event.report finding ∉ d.events
  | _, .leaf _ _ => List.not_mem_nil
  | _, .branch rule children => by
    rw [Derivation.events_branch, List.mem_append, not_or]
    exact ⟨children.report_not_mem finding, rule.report_not_mem_completes _ finding⟩

/-- Derivations in a row hand over statements only. -/
theorem Forest.report_not_mem (finding : Diagnostic) : {xs : List Symbol} → (f : Forest xs) →
    Event.report finding ∉ f.events
  | _, .nil => List.not_mem_nil
  | _, .cons first rest => by
    rw [Forest.events, List.mem_append, not_or]
    exact ⟨first.report_not_mem finding, rest.report_not_mem finding⟩

end

end CallGraph
