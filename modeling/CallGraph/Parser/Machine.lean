import CallGraph.Parser.Reduction
import CallGraph.Token.Scanner

/-!
# The parser

The parser takes one token at a time.  A token that cannot stand where it does is reported; then
the parser drops the statement that it is in and discards tokens up to and including the next
semicolon or right bracket.  The number of such reports is limited by a budget, and a budget of
zero makes every mistake fatal.  For three tokens after a recovery, further mistakes are skipped
without a report and without a charge.

* `Machine.feed` — one token: the events that it gives rise to, and the machine behind it or the
  error that it fails with;
* `Machine.finish` — the end of the input;
* `parseTokens` — a whole list of tokens, the token behind the last one given apart;
* `parse` — a whole text.
-/

namespace CallGraph

/-- How many tokens must be taken after a recovery before a mistake is reported again. -/
def quietTokens : Nat := 3

/-- The parser between two tokens. -/
structure Machine where
  /-- The symbols read, the last one first. -/
  stack : List Frame
  /-- How many tokens must still be taken before a mistake is reported. -/
  quiet : Nat := 0
  /-- How many mistakes have been reported against the budget. -/
  recoveries : Nat := 0
  /-- The error being recovered from, while tokens are being discarded. -/
  discarding : Option SyntaxError := none
deriving DecidableEq

/-- The stack of a parser that has read nothing; the frame tells where the text starts. -/
def emptyStack (origin : Location) : List Frame := [⟨.start, .nothing, .empty origin⟩]

/-- The stack with an empty list of statements on it. -/
def pushStatements (here : Location) (stack : List Frame) : List Frame :=
  ⟨.statements, .nothing, .empty here⟩ :: stack

/-- The stack without the statement that is being read.  Where there is no list of statements yet, an
empty one is put on the bottom of the stack. -/
def unwind (here : Location) (stack : List Frame) : List Frame :=
  match stack.dropWhile fun frame => frame.state ≠ .statements with
  | [] => pushStatements here stack.getLast?.toList
  | stack => stack

theorem unwind_of_statements {frame : Frame} (h : frame.state = .statements) (here : Location)
    (stack : List Frame) : unwind here (frame :: stack) = frame :: stack := by
  simp [unwind, h]

/-- Any other frame is dropped, unless it is the bottom of the stack. -/
theorem unwind_cons {frame : Frame} {stack : List Frame} (h : frame.state ≠ .statements)
    (hstack : stack ≠ []) (here : Location) : unwind here (frame :: stack) = unwind here stack := by
  obtain ⟨below, lower, rfl⟩ := List.exists_cons_of_ne_nil hstack
  unfold unwind
  rw [List.dropWhile_cons_of_pos (by simpa using h), List.getLast?_cons_cons]

/-- Whether discarding ends with the terminal. -/
def endsDiscarding (t : Terminal) : Bool :=
  t = .semicolon || t = .rightBracket

namespace Machine

/-- A parser that has read nothing. -/
def initial (origin : Location) : Machine := ⟨emptyStack origin, 0, 0, none⟩

/-- Recovers from a token that cannot stand where it does, or gives up. -/
def recover (budget : Nat) (m : Machine) (token : Token) (t : Terminal) :
    List Event × Except SyntaxError Machine :=
  let error : SyntaxError := ⟨token, .unexpected (topState m.stack).expected⟩
  let recovered : Machine :=
    { m with
      stack := unwind token.span.location m.stack
      quiet := quietTokens
      discarding := if endsDiscarding t then none else some error }
  if budget = 0 then ([], .error error)
  else if 0 < m.quiet then ([], .ok recovered)
  else if budget ≤ m.recoveries then ([], .error error)
  else ([.report error.toDiagnostic], .ok { recovered with recoveries := m.recoveries + 1 })

/-- Takes one token. -/
def feed (budget : Nat) (m : Machine) (token : Token) : List Event × Except SyntaxError Machine :=
  match token.kind.terminal with
  | .error mistake =>
    let error : SyntaxError := ⟨token, .lexical mistake⟩
    if budget = 0 then ([], .error error) else ([.report error.toDiagnostic], .ok m)
  | .ok t =>
    match m.discarding with
    | some _ => ([], .ok (if endsDiscarding t then { m with discarding := none } else m))
    | none =>
      match settle t token.span.location m.stack with
      | (events, .error what) => (events, .error ⟨token, .inconsistent what⟩)
      | (events, .ok (stack, .shift next)) =>
        (events, .ok { m with stack := .ofToken next token :: stack, quiet := m.quiet - 1 })
      | (events, .ok (stack, _)) =>
        let (more, result) := recover budget { m with stack } token t
        (events ++ more, result)

/-- Takes the end of the input. -/
def finish (m : Machine) (last : Token) : List Event × Except SyntaxError Unit :=
  match m.discarding with
  | some error => ([], .error error)
  | none =>
    match settle .endOfInput last.span.location m.stack with
    | (events, .error what) => (events, .error ⟨last, .inconsistent what⟩)
    | (events, .ok (_, .accept)) => (events, .ok ())
    | (events, .ok (stack, _)) =>
      (events, .error ⟨last, .unexpected (topState stack).expected⟩)

end Machine

/-- What came out of reading a list of tokens. -/
structure Parse where
  /-- What was handed over, in order. -/
  events : List Event
  /-- Whether the list was read to its end. -/
  result : Except SyntaxError Unit
  /-- How many mistakes were reported against the budget. -/
  recoveries : Nat
  /-- The tokens behind the one that was fatal. -/
  rest : List Token

/-- Feeds the tokens to a machine. -/
def Machine.run (budget : Nat) (last : Token) (m : Machine) : List Token → Parse
  | [] =>
    let (events, result) := m.finish last
    ⟨events, result, m.recoveries, []⟩
  | token :: rest =>
    match m.feed budget token with
    | (events, .error error) => ⟨events, .error error, m.recoveries, rest⟩
    | (events, .ok m) =>
      let behind := m.run budget last rest
      { behind with events := events ++ behind.events }

/-- Reads a list of tokens under a budget, from a place before them on; `last` is the end token behind
them. -/
def parseTokens (budget : Nat) (origin : Location) (tokens : List Token) (last : Token) : Parse :=
  (Machine.initial origin).run budget last tokens

/-- Reads a text that starts at `origin` under a budget. -/
def parse (budget : Nat) (origin : Location) (source : String) : Parse :=
  let (tokens, last) := (Scanner.startingAt origin source).tokens
  parseTokens budget origin tokens last

end CallGraph
