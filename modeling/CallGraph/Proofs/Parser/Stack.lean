import CallGraph.Proofs.Grammar.Automaton
import CallGraph.Proofs.Parser.Frame

/-!
# The stack of the parser

`Stacked base stack pieces` says that the stack is `base` with frames on top that hold the pieces,
the last one first, each state reached from the one below it by the symbol of its piece.
-/

namespace CallGraph

/-- The tokens under the frames of a stack, in source order. -/
def wordOf (pieces : List Piece) : List Token := pieces.reverse.flatMap Piece.word

/-- The statements that the frames of a stack have handed over, in source order. -/
def eventsOf (pieces : List Piece) : List Event := pieces.reverse.flatMap Piece.events

theorem wordOf_append (upper lower : List Piece) :
    wordOf (upper ++ lower) = wordOf lower ++ wordOf upper := by
  rw [wordOf, List.reverse_append, List.flatMap_append]
  rfl

theorem eventsOf_append (upper lower : List Piece) :
    eventsOf (upper ++ lower) = eventsOf lower ++ eventsOf upper := by
  rw [eventsOf, List.reverse_append, List.flatMap_append]
  rfl

theorem wordOf_cons (piece : Piece) (pieces : List Piece) :
    wordOf (piece :: pieces) = wordOf pieces ++ piece.word := by
  rw [← List.singleton_append, wordOf_append]
  exact congrArg (wordOf pieces ++ ·) (List.append_nil _)

theorem eventsOf_cons (piece : Piece) (pieces : List Piece) :
    eventsOf (piece :: pieces) = eventsOf pieces ++ piece.events := by
  rw [← List.singleton_append, eventsOf_append]
  exact congrArg (eventsOf pieces ++ ·) (List.append_nil _)

/-- A reduction keeps the word. -/
theorem wordOf_branch (rule : Rule) (children : Forest rule.rhs) (lower : List Piece) :
    wordOf (⟨_, .branch rule children⟩ :: lower) = wordOf (children.pieces.reverse ++ lower) := by
  have hchildren : wordOf children.pieces.reverse = children.word := by
    rw [wordOf, List.reverse_reverse, children.flatMap_word_pieces]
  rw [wordOf_cons, wordOf_append, hchildren]
  rfl

/-- A reduction hands over the statement that its rule completes. -/
theorem eventsOf_branch (rule : Rule) (children : Forest rule.rhs) (lower : List Piece) :
    eventsOf (⟨_, .branch rule children⟩ :: lower) =
      eventsOf (children.pieces.reverse ++ lower) ++ rule.completes children.contents := by
  have hchildren : eventsOf children.pieces.reverse = children.events := by
    rw [eventsOf, List.reverse_reverse, children.flatMap_events_pieces]
  rw [eventsOf_cons, eventsOf_append, hchildren, List.append_assoc]
  exact congrArg (eventsOf lower ++ ·) (Derivation.events_branch rule children)

/-- The stack is `base` with frames on top that hold the pieces, along the automaton. -/
inductive Stacked (base : List Frame) : List Frame → List Piece → Prop where
  | base : Stacked base base []
  | push {stack : List Frame} {pieces : List Piece} {frame : Frame} {piece : Piece} :
    Stacked base stack pieces → (topState stack).next? piece.symbol = some frame.state →
    frame.Holds piece → Stacked base (frame :: stack) (piece :: pieces)

namespace Stacked

variable {base stack : List Frame} {pieces : List Piece}

/-- The state on top has been reached by the symbols of the pieces. -/
theorem reading_suffix (h : Stacked base stack pieces) :
    (topState stack).reading <:+
      (topState base).reading ++ (pieces.map Piece.symbol).reverse := by
  induction h with
  | base => simp
  | push _ hnext _ ih =>
    rw [List.map_cons, List.reverse_cons, ← List.append_assoc]
    exact (State.reading_next? hnext).trans (List.suffix_append_self_iff.2 ih)

/-- A stack can be cut above any of its pieces. -/
theorem split {upper lower : List Piece} (h : Stacked base stack (upper ++ lower)) :
    ∃ frames rest, stack = frames ++ rest ∧ List.Forall₂ Frame.Holds frames upper ∧
      Stacked base rest lower ∧
      (topState rest).along? (upper.map Piece.symbol).reverse = some (topState stack) := by
  induction upper generalizing stack with
  | nil => exact ⟨[], stack, rfl, .nil, h, rfl⟩
  | cons piece upper ih =>
    cases h with
    | push h hnext hholds =>
      obtain ⟨frames, rest, rfl, hframes, hrest, halong⟩ := ih h
      refine ⟨_ :: frames, rest, rfl, .cons hholds hframes, hrest, ?_⟩
      rw [List.map_cons, List.reverse_cons, State.along?_append halong, State.along?_cons hnext]
      rfl

end Stacked

/-! ### Foundations -/

/-- What a stack can be built on: nothing, or statements that are complete. -/
inductive Foundation : State → List Frame → Prop where
  | start {bottom : Frame} : bottom.state = .start → Foundation .start [bottom]
  | statements {between bottom : Frame} : between.state = .statements → bottom.state = .start →
    Foundation .statements [between, bottom]

theorem Foundation.topState_eq {s : State} {base : List Frame} (h : Foundation s base) :
    topState base = s := by
  cases h <;> assumption

theorem Foundation.ne_nil {s : State} {base : List Frame} (h : Foundation s base) : base ≠ [] := by
  cases h <;> exact List.cons_ne_nil _ _

theorem rule_eq_moreStatements {rule : Rule} {xs : List Symbol}
    (h : rule.rhs = .nonterminal .statements :: xs) : rule = .moreStatements := by
  cases rule <;> simp [Rule.rhs] at h ⊢

namespace Stacked

variable {base stack : List Frame} {pieces : List Piece} {s : State} {rule : Rule} {t : Terminal}

/-- A rule that is reduced has its right-hand side on the stack, above the foundation. -/
theorem rhs_suffix (h : Stacked base stack pieces) (hbase : Foundation s base)
    (haction : (topState stack).action t = .reduce rule)
    (hrule : s = .start ∨ rule ≠ .moreStatements) :
    rule.rhs <:+ (pieces.map Piece.symbol).reverse := by
  have hsuffix := (State.rhs_suffix_reading haction).trans h.reading_suffix
  rw [hbase.topState_eq] at hsuffix
  cases hbase with
  | start => exact hsuffix
  | statements =>
    rcases List.suffix_cons_iff.1 hsuffix with heq | hsuffix
    · rcases hrule with hstart | hrule
      · simp only [reduceCtorEq] at hstart
      · exact absurd (rule_eq_moreStatements heq) hrule
    · exact hsuffix

theorem ne_nil (h : Stacked base stack pieces) (hbase : base ≠ []) : stack ≠ [] := by
  cases h with
  | base => exact hbase
  | push => exact List.cons_ne_nil _ _

/-- **Every reduction that the tables ask for succeeds.**  It replaces derivations from the
right-hand side by the derivation that the rule makes of them. -/
theorem reduce_eq (h : Stacked base stack pieces) (hbase : Foundation s base)
    (haction : (topState stack).action t = .reduce rule)
    (hrule : s = .start ∨ rule ≠ .moreStatements) (here : Location) :
    ∃ (children : Forest rule.rhs) (lower : List Piece) (stack' : List Frame),
      pieces = children.pieces.reverse ++ lower ∧
      reduce rule here stack = .ok (stack', (rule.completes children.contents).head?) ∧
      Stacked base stack' (⟨_, .branch rule children⟩ :: lower) ∧
      (rule ≠ .moreStatements → (topState stack').distance = (topState stack).distance) := by
  obtain ⟨below, hbelow⟩ := h.rhs_suffix hbase haction hrule
  obtain ⟨upper, lower, rfl, hupper⟩ : ∃ upper lower, pieces = upper ++ lower ∧
      upper.map Piece.symbol = rule.rhs.reverse := by
    have hsymbols : pieces.map Piece.symbol = rule.rhs.reverse ++ below.reverse := by
      rw [← List.reverse_append, hbelow, List.reverse_reverse]
    obtain ⟨upper, lower, rfl, hupper, -⟩ := List.map_eq_append_iff.1 hsymbols
    exact ⟨upper, lower, rfl, hupper⟩
  have hrhs : upper.reverse.map Piece.symbol = rule.rhs := by
    rw [List.map_reverse, hupper, List.reverse_reverse]
  obtain ⟨children, hchildren⟩ := Forest.exists_pieces upper.reverse hrhs
  obtain ⟨frames, rest, rfl, hframes, hrest, halong⟩ := h.split
  rw [hupper, List.reverse_reverse] at halong
  obtain ⟨next, hnext⟩ := State.goto?_of_reduces halong haction
  obtain ⟨top, rest, rfl⟩ := List.exists_cons_of_ne_nil (hrest.ne_nil hbase.ne_nil)
  have hpieces : upper = children.pieces.reverse := by rw [hchildren, List.reverse_reverse]
  rw [hpieces] at hframes ⊢
  obtain ⟨frame, hstate, hholds, hreduce⟩ := reduce_holds here hframes hnext
  refine ⟨children, lower, _, rfl, hreduce, hrest.push ?_ hholds, fun hmore => ?_⟩
  · rw [hstate]
    exact hnext
  · show frame.state.distance = _
    rw [hstate]
    exact State.distance_goto? halong haction hnext hmore

end Stacked

end CallGraph
