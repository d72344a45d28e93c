import Mathlib.Logic.Relation
import CallGraph.Parser.Machine
import CallGraph.Proofs.Parser.Stack

/-!
# Moves of the automaton

A `Move` takes one token or reduces by one rule; the derivations under the frames are carried
along.  The last token of a configuration is only looked at.

* `Derivation.moves` — **completeness**: where a symbol may stand, each of its derivations is read;
* `Move.functional` — at most one move is possible, so two readings of the same tokens agree;
* `statement_unique` — no statement is the beginning of another one, and there is only one way to
  derive it.
-/

namespace CallGraph

/-- A stack, the derivations under its frames, and the tokens ahead. -/
structure Config where
  /-- The stack. -/
  stack : List Frame
  /-- The derivations under its frames, the last one first. -/
  pieces : List Piece
  /-- The tokens ahead. -/
  tokens : List Token

/-- Taking one token or reducing by one rule. -/
inductive Move : Config → Config → Prop where
  | shift {stack : List Frame} {pieces : List Piece} {token : Token} {rest : List Token}
    {t : Terminal} {next : State} (stands : token.kind.terminal = .ok t) :
    (topState stack).action t = .shift next →
    Move ⟨stack, pieces, token :: rest⟩
      ⟨.ofToken next token :: stack, ⟨_, .leaf token stands⟩ :: pieces, rest⟩
  | reduce {stack stack' : List Frame} {lower : List Piece} {token : Token} {rest : List Token}
    {t : Terminal} {rule : Rule} {children : Forest rule.rhs} {event : Option Event} :
    token.kind.terminal = .ok t → (topState stack).action t = .reduce rule →
    reduce rule token.span.location stack = .ok (stack', event) →
    Move ⟨stack, children.pieces.reverse ++ lower, token :: rest⟩
      ⟨stack', ⟨_, .branch rule children⟩ :: lower, token :: rest⟩

/-- Any number of moves. -/
abbrev Moves : Config → Config → Prop := Relation.ReflTransGen Move

/-! ### Completeness -/

/-- The token behind a symbol in a row may follow it. -/
theorem Forest.permits_next {x : Symbol} {xs : List Symbol} (f : Forest xs) {token : Token}
    {t : Terminal} (ht : token.kind.terminal = .ok t) (h : permitsRow (x :: xs) t = true)
    (ahead : List Token) :
    ∃ (token' : Token) (ahead' : List Token) (u : Terminal),
      f.word ++ token :: ahead = token' :: ahead' ∧ token'.kind.terminal = .ok u ∧
        x.permits u = true := by
  cases f with
  | nil => exact ⟨token, ahead, t, rfl, ht, h⟩
  | @cons y ys first rest =>
    cases first with
    | @leaf u token' stands =>
      have hpermits := (Bool.and_eq_true_iff.1 h).1
      exact ⟨token', rest.word ++ token :: ahead, u, rfl, stands, hpermits⟩
    | branch rule children =>
      have hall : ∀ u, x.permits u = true := fun u =>
        List.all_eq_true.1 (Bool.and_eq_true_iff.1 h).1 u u.mem_all
      generalize hword : (Forest.cons (Derivation.branch rule children) rest).word = word
      cases word with
      | nil => exact ⟨token, ahead, t, rfl, ht, hall t⟩
      | cons token' word =>
        obtain ⟨u, hu⟩ := (Forest.cons (Derivation.branch rule children) rest).exists_terminal
          (hword ▸ List.mem_cons_self)
        exact ⟨token', word ++ token :: ahead, u, rfl, hu, hall u⟩

mutual

/-- **Completeness.**  Where a symbol may stand, each of its derivations is read, provided that the
token behind it may follow. -/
theorem Derivation.moves {x : Symbol} (d : Derivation x) (hvisible : Visible d.word)
    {stack : List Frame} (hstack : stack ≠ []) (pieces : List Piece) {next : State}
    (hnext : (topState stack).next? x = some next) {token : Token} {t : Terminal}
    (ht : token.kind.terminal = .ok t) (hpermits : x.permits t = true) (ahead : List Token) :
    ∃ frame : Frame, frame.state = next ∧ frame.Holds ⟨x, d⟩ ∧
      Moves ⟨stack, pieces, d.word ++ token :: ahead⟩
        ⟨frame :: stack, ⟨x, d⟩ :: pieces, token :: ahead⟩ := by
  match x, d with
  | _, .leaf leaf stands =>
    refine ⟨.ofToken next leaf, rfl, ⟨rfl, rfl, hvisible⟩, .single ?_⟩
    exact .shift stands (State.next?_terminal.1 hnext)
  | _, .branch rule children =>
    obtain ⟨s, halong, hreduces⟩ := State.along?_rhs_of_goto? hnext
    obtain ⟨frames, hframes, htop, hmoves⟩ := children.moves hvisible hstack pieces halong ht
      (permitsRow_rhs hpermits) ahead
    obtain ⟨below, rest, rfl⟩ := List.exists_cons_of_ne_nil hstack
    obtain ⟨frame, hstate, hholds, hreduce⟩ := reduce_holds token.span.location hframes hnext
    refine ⟨frame, hstate, hholds, hmoves.tail (.reduce ht ?_ hreduce)⟩
    rw [htop]
    exact hreduces t hpermits

/-- Symbols in a row are read one after the other. -/
theorem Forest.moves {xs : List Symbol} (f : Forest xs) (hvisible : Visible f.word)
    {stack : List Frame} (hstack : stack ≠ []) (pieces : List Piece) {s : State}
    (halong : (topState stack).along? xs = some s) {token : Token} {t : Terminal}
    (ht : token.kind.terminal = .ok t) (hpermits : permitsRow xs t = true) (ahead : List Token) :
    ∃ frames : List Frame, List.Forall₂ Frame.Holds frames f.pieces.reverse ∧
      topState (frames ++ stack) = s ∧
      Moves ⟨stack, pieces, f.word ++ token :: ahead⟩
        ⟨frames ++ stack, f.pieces.reverse ++ pieces, token :: ahead⟩ := by
  match xs, f with
  | _, .nil => exact ⟨[], .nil, Option.some.inj halong, .refl⟩
  | _, @Forest.cons x ys first rest =>
    obtain ⟨next, hnext, hrest⟩ := Option.bind_eq_some_iff.1 halong
    -- What follows the first symbol is the first token of the others, or the one behind them all.
    obtain ⟨token', ahead', u, hahead, hu, hfollows⟩ := rest.permits_next ht hpermits ahead
    have hfirst : Visible first.word := fun token h => hvisible token (List.mem_append_left _ h)
    have hothers : Visible rest.word := fun token h => hvisible token (List.mem_append_right _ h)
    obtain ⟨frame, hstate, hholds, hmoves⟩ :=
      first.moves hfirst hstack pieces hnext hu hfollows ahead'
    obtain ⟨frames, hframes, htop, hmoves'⟩ :=
      rest.moves hothers (List.cons_ne_nil frame stack) (⟨x, first⟩ :: pieces)
        (by rw [topState, hstate]; exact hrest) ht (permitsRow_tail hpermits) ahead
    refine ⟨frames ++ [frame], ?_, ?_, ?_⟩
    · rw [Forest.pieces, List.reverse_cons]
      exact List.rel_append hframes (.cons hholds .nil)
    · rw [List.append_assoc]
      exact htop
    · rw [Forest.pieces, List.reverse_cons, List.append_assoc, List.append_assoc, Forest.word,
        List.append_assoc, hahead]
      rw [hahead] at hmoves'
      exact hmoves.trans hmoves'

end

/-! ### Uniqueness -/

/-- At most one move is possible. -/
theorem Move.functional {c a b : Config} (ha : Move c a) (hb : Move c b) : a = b := by
  cases ha with
  | @shift stack pieces token rest t next stands h =>
    cases hb with
    | @shift _ _ _ _ t' next' stands' h' =>
      obtain rfl : t = t' := Except.ok.inj (stands.symm.trans stands')
      obtain rfl : next = next' := Action.shift.inj (h.symm.trans h')
      rfl
    | @reduce _ _ _ _ _ t' _ _ _ stands' h' =>
      obtain rfl : t = t' := Except.ok.inj (stands.symm.trans stands')
      exact absurd (h.symm.trans h') (by simp)
  | @reduce stack stack' lower token rest t rule children event stands h hreduce =>
    generalize hp : children.pieces.reverse ++ lower = pieces at hb
    cases hb with
    | @shift _ _ _ _ t' next' stands' h' =>
      obtain rfl : t = t' := Except.ok.inj (stands.symm.trans stands')
      exact absurd (h.symm.trans h') (by simp)
    | @reduce _ stack'' lower' _ _ t' rule' children' event' stands' h' hreduce' =>
      obtain rfl : t = t' := Except.ok.inj (stands.symm.trans stands')
      obtain rfl : rule = rule' := Action.reduce.inj (h.symm.trans h')
      -- Both reductions pop as many pieces as the right-hand side has symbols.
      have hlength : children.pieces.reverse.length = children'.pieces.reverse.length := by
        rw [List.length_reverse, List.length_reverse, Forest.length_pieces, Forest.length_pieces]
      obtain ⟨hchildren, rfl⟩ := List.append_inj hp hlength
      obtain rfl := Forest.pieces_injective (List.reverse_injective hchildren)
      obtain ⟨rfl, rfl⟩ := Prod.mk.inj (Except.ok.inj (hreduce.symm.trans hreduce'))
      rfl

/-- No move is possible. -/
def Config.IsStuck (c : Config) : Prop := ∀ c', ¬ Move c c'

/-- There is one way to get stuck. -/
theorem Moves.eq_of_isStuck {c a b : Config} (ha : Moves c a) (hb : Moves c b) (hstuck : a.IsStuck)
    (hstuck' : b.IsStuck) : a = b := by
  have hunique : Relator.RightUnique Move := fun _ _ _ => Move.functional
  have htotal := Relation.ReflTransGen.total_of_right_unique hunique ha hb
  rcases htotal with hab | hba
  · rcases Relation.ReflTransGen.cases_head hab with rfl | ⟨c', hmove, -⟩
    · rfl
    · exact absurd hmove (hstuck c')
  · rcases Relation.ReflTransGen.cases_head hba with rfl | ⟨c', hmove, -⟩
    · rfl
    · exact absurd hmove (hstuck' c')

/-- Where the tables neither shift nor reduce, no move is possible. -/
theorem isStuck_of_action {stack : List Frame} {pieces : List Piece} {token : Token}
    {rest : List Token} {t : Terminal} (ht : token.kind.terminal = .ok t)
    (h : (topState stack).action t = .accept ∨ (topState stack).action t = .refuse) :
    Config.IsStuck ⟨stack, pieces, token :: rest⟩ := by
  intro c' hmove
  generalize hp : pieces = pieces' at hmove
  cases hmove with
  | shift stands hshift =>
    obtain rfl := Except.ok.inj (ht.symm.trans stands)
    simp [hshift] at h
  | reduce stands hreduce =>
    obtain rfl := Except.ok.inj (ht.symm.trans stands)
    simp [hreduce] at h

/-- A statement is only reduced together with the statements before it. -/
theorem isStuck_statement {stack : List Frame} {piece : Piece} {tokens : List Token}
    (h : topState stack = .statement) : Config.IsStuck ⟨stack, [piece], tokens⟩ := by
  intro c' hmove
  generalize hp : [piece] = pieces at hmove
  cases hmove with
  | shift stands hshift =>
    rw [h] at hshift
    simp [State.action, State.complete?] at hshift
  | @reduce _ _ lower _ _ _ rule children _ stands hreduce _ =>
    rw [h] at hreduce
    obtain rfl : Rule.moreStatements = rule := Action.reduce.inj hreduce
    have hlength := congrArg List.length hp
    rw [List.length_append, List.length_reverse, children.length_pieces] at hlength
    simp only [Rule.rhs, List.length_cons, List.length_nil] at hlength
    omega

/-- The tokens of a word with a token behind them start with one that stands for a terminal. -/
theorem exists_lookahead {word : List Token} {last : Token} {t : Terminal}
    (hword : ∀ token ∈ word, ∃ u, token.kind.terminal = .ok u)
    (hlast : last.kind.terminal = .ok t) :
    ∃ token ahead u, word ++ [last] = token :: ahead ∧ token.kind.terminal = .ok u := by
  cases word with
  | nil => exact ⟨last, [], t, rfl, hlast⟩
  | cons token word =>
    obtain ⟨u, hu⟩ := hword token List.mem_cons_self
    exact ⟨token, word ++ [last], u, rfl, hu⟩

/-- **Statements are told apart as they are read.**  No statement is the beginning of another one,
and there is only one way to derive it. -/
theorem statement_unique {d d' : Derivation (.nonterminal .statement)} {word : List Token}
    (hvisible : Visible d'.word) (h : d'.word = d.word ++ word) : word = [] ∧ d = d' := by
  let last := Token.endAt default
  let base := pushStatements default (emptyStack default)
  have hword : ∀ token ∈ word, ∃ u, token.kind.terminal = .ok u := fun token htoken =>
    d'.exists_terminal (h ▸ List.mem_append_right _ htoken)
  have hlast : last.kind.terminal = .ok .endOfInput := rfl
  obtain ⟨token, ahead, u, hahead, hu⟩ := exists_lookahead hword hlast
  have hvisible' : Visible d.word := fun token htoken =>
    hvisible token (h ▸ List.mem_append_left _ htoken)
  obtain ⟨frame, hstate, -, hmoves⟩ :=
    d.moves hvisible' (List.cons_ne_nil _ _ : base ≠ []) [] rfl hu rfl ahead
  obtain ⟨frame', hstate', -, hmoves'⟩ :=
    d'.moves hvisible (List.cons_ne_nil _ _ : base ≠ []) [] rfl hlast rfl []
  rw [← hahead, ← List.append_assoc, ← h] at hmoves
  have heq := hmoves.eq_of_isStuck hmoves' (isStuck_statement hstate) (isStuck_statement hstate')
  obtain ⟨-, hpieces, htokens⟩ := Config.mk.inj heq
  refine ⟨List.append_left_eq_self.1 htokens, ?_⟩
  exact eq_of_heq (Piece.mk.inj (List.cons.inj hpieces).1).2

end CallGraph
