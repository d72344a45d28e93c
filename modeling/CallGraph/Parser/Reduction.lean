import CallGraph.Parser.SyntaxError
import CallGraph.Statement

/-!
# Reductions

The stack of the parser holds one `Frame` for each symbol read: the state behind it, what it means
and its span.  A reduction replaces the frames of a right-hand side by the one of the nonterminal.

* `Rule.meaning?` — what a nonterminal means, given the meanings of the symbols it is made of, and
  the statement that is complete with it, if one is;
* `reduce` — one reduction;
* `settle` — all reductions before the next token is taken, and what is to be done with it.
-/

namespace CallGraph

/-- What a symbol on the stack means. -/
inductive Meaning where
  /-- Nothing that is handed on. -/
  | nothing
  /-- The token itself. -/
  | token (t : Token)
  /-- The right-hand side of an assignment. -/
  | value (v : Located Value)
  /-- An assignment. -/
  | assignment (a : Assignment)
  /-- A list of assignments. -/
  | assignments (as : List Assignment)
  /-- The two ends of an edge. -/
  | head (source : Option (Located String)) (target : Located String)
  /-- The payload of an edge. -/
  | payload (p : Option (Located String))
  /-- A node declaration. -/
  | node (statement : NodeStatement)
  /-- An edge declaration. -/
  | edge (statement : EdgeStatement)
deriving DecidableEq

/-- A symbol on the stack. -/
structure Frame where
  /-- The state behind the symbol. -/
  state : State
  /-- What the symbol means. -/
  meaning : Meaning
  /-- Where the symbol was read. -/
  span : Span
deriving DecidableEq

/-- The frame of a token that was taken. -/
def Frame.ofToken (state : State) (t : Token) : Frame := ⟨state, .token t, t.span⟩

/-- The location behind the opening brace of a payload. -/
def Token.innerLocation (t : Token) : Location := t.span.location.step '\x7b'

/-- What the left-hand side of a rule means, given the meanings of the symbols on the right and
the span that they cover, and the statement that is complete with it.  There is none if the
meanings are not those of the right-hand side. -/
def Rule.meaning? (rule : Rule) (children : List Meaning) (span : Span) :
    Option (Meaning × Option Event) :=
  match rule, children with
  | .noStatements, [] => some (.nothing, none)
  | .moreStatements, [_, _] => some (.nothing, none)
  | .nodeStatement, [.node statement] => some (.nothing, some (.node statement))
  | .edgeStatement, [.edge statement, _] => some (.nothing, some (.edge statement))
  | .settingStatement, [.assignment a, _] => some (.nothing, some (.setting a))
  | .emptyStatement, [_] => some (.nothing, none)
  | .node, [_, .token ⟨.identifier name, _, s⟩, _, .assignments as, _] =>
    some (.node ⟨⟨name, s⟩, as, span⟩, none)
  | .noAssignments, [] => some (.assignments [], none)
  | .assignmentList, [.assignments as] => some (.assignments as, none)
  | .assignmentListComma, [.assignments as, _] => some (.assignments as, none)
  | .firstAssignment, [.assignment a] => some (.assignments [a], none)
  | .moreAssignments, [.assignments as, _, .assignment a] =>
    some (.assignments (as ++ [a]), none)
  | .assignment, [.token ⟨.identifier key, _, s⟩, _, .value v] =>
    some (.assignment ⟨⟨key, s⟩, v⟩, none)
  | .textValue, [.token ⟨.text content, _, _⟩] => some (.value ⟨.text content, span⟩, none)
  | .numberValue, [.token ⟨.number n, _, _⟩] => some (.value ⟨.number n, span⟩, none)
  | .wordValue, [.token ⟨.identifier name, _, _⟩] => some (.value ⟨.word name, span⟩, none)
  | .edge, [.head source target, .assignments as, .payload p] =>
    some (.edge ⟨source, target, as, p, span⟩, none)
  | .explicitHead, [.token ⟨.identifier source, _, s⟩, _, .token ⟨.identifier target, _, s'⟩] =>
    some (.head (some ⟨source, s⟩) ⟨target, s'⟩, none)
  | .implicitHead, [_, .token ⟨.identifier target, _, s⟩] =>
    some (.head none ⟨target, s⟩, none)
  | .noOptions, [] => some (.assignments [], none)
  | .moreOptions, [.assignments as, .assignment a] => some (.assignments (as ++ [a]), none)
  | .noPayload, [] => some (.payload none, none)
  | .payload, [.token ⟨.payload inner, text, s⟩] =>
    some (.payload (some ⟨inner,
      .ofText (Token.innerLocation ⟨.payload inner, text, s⟩) inner.toList⟩), none)
  | .setting, [.token ⟨.identifier key, _, s⟩, _, .value v] =>
    some (.assignment ⟨⟨key, s⟩, v⟩, none)
  | _, _ => none

/-- The state on top of a stack, its top being its head. -/
def topState : List Frame → State
  | [] => .start
  | frame :: _ => frame.state

/-- Replaces the frames of the rule's right-hand side.  A rule with an empty right-hand side gets
the empty span at `here`. -/
def reduce (rule : Rule) (here : Location) (stack : List Frame) :
    Except Inconsistency (List Frame × Option Event) :=
  let children := (stack.take rule.length).reverse
  match stack.drop rule.length with
  | [] => .error (.underflow rule)
  | below :: rest =>
    let span := (Span.cover? (children.map Frame.span)).getD (.empty here)
    match rule.meaning? (children.map Frame.meaning) span with
    | none => .error (.misfit rule)
    | some (meaning, event) =>
      match below.state.goto? rule.lhs with
      | none => .error (.noGoto below.state rule.lhs)
      | some next => .ok (⟨next, meaning, span⟩ :: below :: rest, event)

/-- A reduction lowers the rank of the state on top. -/
theorem rank_reduce_lt {rule : Rule} {here : Location} {stack stack' : List Frame}
    {t : Terminal} {event : Option Event} (reduces : (topState stack).action t = .reduce rule)
    (h : reduce rule here stack = .ok (stack', event)) :
    (topState stack').rank < (topState stack).rank := by
  simp only [reduce] at h
  cases hdrop : stack.drop rule.length with
  | nil => simp only [hdrop, reduceCtorEq] at h
  | cons below rest =>
    simp only [hdrop] at h
    cases hgoto : below.state.goto? rule.lhs with
    | none =>
      simp only [hgoto] at h
      split at h <;> simp only [reduceCtorEq] at h
    | some next =>
      simp only [hgoto] at h
      split at h
      · simp only [reduceCtorEq] at h
      · simp only [Except.ok.injEq, Prod.mk.injEq] at h
        rw [← h.1]
        exact State.rank_goto_lt reduces hgoto

/-- What to do with a token once no reduction is left. -/
inductive Verdict where
  /-- Take it and go to the state. -/
  | shift (next : State)
  /-- The input is complete. -/
  | accept
  /-- It cannot stand here. -/
  | refuse
deriving DecidableEq

/-- Reduces as long as the tables say so before the terminal `t` at `here`: the statements that are
complete, and the stack with what to do next. -/
def settle (t : Terminal) (here : Location) (stack : List Frame) :
    List Event × Except Inconsistency (List Frame × Verdict) :=
  match _action : (topState stack).action t with
  | .shift next => ([], .ok (stack, .shift next))
  | .accept => ([], .ok (stack, .accept))
  | .refuse => ([], .ok (stack, .refuse))
  | .reduce rule =>
    match _reduced : reduce rule here stack with
    | .error what => ([], .error what)
    | .ok (stack', event) =>
      let (events, result) := settle t here stack'
      (event.toList ++ events, result)
termination_by (topState stack).rank
decreasing_by exact rank_reduce_lt _action _reduced

end CallGraph
