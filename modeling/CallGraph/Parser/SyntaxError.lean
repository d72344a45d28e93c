import CallGraph.Grammar.Table
import CallGraph.Token.Basic

/-!
# Syntax errors

A `SyntaxError` says which token a text fails at and why.  Recovered errors become reports through
`SyntaxError.toDiagnostic`.
-/

namespace CallGraph

/-- The terminal that a token stands for, unless it is a mistake. -/
def TokenKind.terminal : TokenKind → Except LexicalError Terminal
  | .identifier _ => .ok .identifier
  | .text _ => .ok .text
  | .number _ => .ok .number
  | .payload _ => .ok .block
  | .dot => .ok .dot
  | .arrow => .ok .arrow
  | .equals => .ok .equals
  | .comma => .ok .comma
  | .leftBracket => .ok .leftBracket
  | .rightBracket => .ok .rightBracket
  | .semicolon => .ok .semicolon
  | .endOfInput => .ok .endOfInput
  | .invalid error => .error error

/-- How the stack of the parser can fail to fit the tables. -/
inductive Inconsistency where
  /-- The stack is shorter than a right-hand side. -/
  | underflow (rule : Rule)
  /-- The values on the stack are not what the rule is made of. -/
  | misfit (rule : Rule)
  /-- The tables do not say where to go on. -/
  | noGoto (state : State) (nonterminal : Nonterminal)
deriving DecidableEq

namespace Inconsistency

/-- The failure in one sentence. -/
def message : Inconsistency → String
  | underflow _ => "internal parser error: parser stack underflow"
  | misfit _ => "internal parser error: unexpected value on the stack"
  | noGoto state _ => "internal parser error: no goto in state " ++ toString state.index

end Inconsistency

/-- Why a text is refused at a token. -/
inductive SyntaxError.Reason where
  /-- One of these terminals should stand there. -/
  | unexpected (expected : List Terminal)
  /-- The token itself is wrong. -/
  | lexical (error : LexicalError)
  /-- The stack does not fit the tables. -/
  | inconsistent (what : Inconsistency)
deriving DecidableEq

/-- Why and at which token a text is refused. -/
structure SyntaxError where
  /-- The token at fault. -/
  token : Token
  /-- What is wrong with it. -/
  reason : SyntaxError.Reason
deriving DecidableEq

namespace SyntaxError

/-- Names in a row: `a`, `a or b`, `a, b or c`. -/
def alternatives : List Terminal → String
  | [] => ""
  | [only] => only.name
  | [first, last] => first.name ++ " or " ++ last.name
  | first :: rest => first.name ++ ", " ++ alternatives rest

/-- The terminals that could stand in the token's place. -/
def expected (e : SyntaxError) : List Terminal :=
  match e.reason with
  | .unexpected expected => expected
  | _ => []

/-- The error in one sentence. -/
def message (e : SyntaxError) : String :=
  match e.reason with
  | .unexpected _ => "unexpected " ++ e.token.display
  | .lexical error => error.message
  | .inconsistent what => what.message

/-- The text of the token at fault. -/
def text (e : SyntaxError) : String :=
  match e.reason with
  | .inconsistent _ => ""
  | _ => e.token.text

/-- The span of the token at fault. -/
def span (e : SyntaxError) : Span := e.token.span

/-- The code under which the error is listed. -/
def code (e : SyntaxError) : Code :=
  match e.reason with
  | .unexpected _ => if e.token.isEnd then .unexpectedEnd else .unexpectedToken
  | .lexical error => error.code
  | .inconsistent _ => .unexpectedToken

/-- How to mend the error. -/
def help (e : SyntaxError) : Option String :=
  match e.reason with
  | .unexpected [] => none
  | .unexpected expected => some ("expected " ++ alternatives expected)
  | .lexical error => some error.help
  | .inconsistent _ => none

/-- The error on one line: where and what. -/
def display (e : SyntaxError) : String :=
  e.span.location.display ++ ": " ++ e.message

/-- The finding that reports the error. -/
def toDiagnostic (e : SyntaxError) : Diagnostic where
  severity := .error
  code := some e.code
  message := e.message
  labels := [.primary e.span (if e.expected.isEmpty then "here" else "unexpected token")]
  help := e.help

end SyntaxError

end CallGraph
