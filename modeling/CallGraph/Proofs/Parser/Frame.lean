import Mathlib.Data.List.Forall2
import CallGraph.Parser.Reduction
import CallGraph.Proofs.Grammar.Derivation
import CallGraph.Proofs.Source.Cover
import CallGraph.Proofs.Token.Visible

/-!
# Frames and derivations

The frames of the parser hold what is kept of derivations.

* `Rule.meaning?_pieces` — what the parser computes for a rule is what the derivation means;
* `Frame.Holds` — a frame holds a derivation: it keeps its meaning and covers its word;
* `reduce_holds` — if the frames on top hold derivations from a right-hand side, a reduction puts
  a frame in their place that holds the derivation made of them.
-/

namespace CallGraph

/-! ### Derivations on the stack -/

/-- A derivation together with the symbol at its root. -/
structure Piece where
  /-- The symbol at the root. -/
  symbol : Symbol
  /-- The derivation. -/
  tree : Derivation symbol

/-- The tokens derived. -/
def Piece.word (p : Piece) : List Token := p.tree.word

/-- The statements handed over. -/
def Piece.events (p : Piece) : List Event := p.tree.events

/-- The derivations in a row. -/
def Forest.pieces : {xs : List Symbol} → Forest xs → List Piece
  | _, .nil => []
  | _, .cons first rest => ⟨_, first⟩ :: rest.pieces

/-- What the parser keeps of a nonterminal. -/
def Nonterminal.meaning : (n : Nonterminal) → n.Content → Meaning
  | .statements, _ | .statement, _ => .nothing
  | .node, said => .node said
  | .assignmentList, said | .assignments, said | .options, said => .assignments said
  | .assignment, said | .setting, said => .assignment said
  | .value, said => .value said
  | .edge, said => .edge said
  | .edgeHead, said => .head said.1 said.2
  | .payload, said => .payload said

/-- What the parser keeps of a derivation. -/
def Derivation.meaning : {x : Symbol} → Derivation x → Meaning
  | _, .leaf token _ => .token token
  | _, .branch rule children => rule.lhs.meaning (Derivation.branch rule children).content

/-- What the parser keeps. -/
def Piece.meaning (p : Piece) : Meaning := p.tree.meaning

theorem Derivation.meaning_eq {n : Nonterminal} (d : Derivation (.nonterminal n)) :
    d.meaning = n.meaning d.content := by
  cases d
  rfl

theorem spanOf_singleton {token : Token} (h : token.span.isEmpty = false) :
    spanOf [token] = token.span := by
  simp [spanOf, Span.cover?_singleton h]

/-- The ends of an edge are not left out altogether. -/
theorem Derivation.head_word_ne_nil {n : Nonterminal} (d : Derivation (.nonterminal n))
    (hn : n = .edgeHead) : d.word ≠ [] := by
  cases d with
  | branch rule children =>
    cases rule <;> simp only [Rule.lhs, reduceCtorEq] at hn
    case explicitHead =>
      cases children with
      | cons first rest =>
        cases first with
        | leaf source _ => exact List.cons_ne_nil source _
    case implicitHead =>
      cases children with
      | cons first rest =>
        cases first with
        | leaf arrow _ => exact List.cons_ne_nil arrow _

/-- The span of a word does not depend on what stands in for the cover of no tokens. -/
theorem getD_cover? {word : List Token} {span : Span} (h : Visible word) (hword : word ≠ []) :
    (Span.cover? (word.map Token.span)).getD span = spanOf word := by
  obtain ⟨token, htoken⟩ := List.exists_mem_of_ne_nil word hword
  obtain ⟨s, hs⟩ := Span.exists_cover? (List.mem_map_of_mem htoken) (h token htoken)
  rw [spanOf, hs, Option.getD_some, Option.getD_some]

/-- **What the parser computes is what the derivation means.** -/
theorem Rule.meaning?_pieces : (rule : Rule) → (children : Forest rule.rhs) → (span : Span) →
    Visible children.word → (children.word ≠ [] → span = spanOf children.word) →
    rule.meaning? (children.pieces.map Piece.meaning) span =
      some ((Derivation.branch rule children).meaning, (rule.completes children.contents).head?)
  | .noStatements, .nil, _, _, _ => rfl
  | .moreStatements, .cons _ (.cons _ .nil), _, _, _ => rfl
  | .nodeStatement, .cons _ .nil, _, _, _ => by
    simp only [Forest.pieces, List.map_cons, List.map_nil, Piece.meaning, Derivation.meaning_eq]
    rfl
  | .edgeStatement, .cons _ (.cons _ .nil), _, _, _ => by
    simp only [Forest.pieces, List.map_cons, List.map_nil, Piece.meaning, Derivation.meaning_eq]
    rfl
  | .settingStatement, .cons _ (.cons _ .nil), _, _, _ => by
    simp only [Forest.pieces, List.map_cons, List.map_nil, Piece.meaning, Derivation.meaning_eq]
    rfl
  | .emptyStatement, .cons _ .nil, _, _, _ => rfl
  | .node, .cons (.leaf dot hdot)
      (.cons (.leaf ⟨.identifier _, _, _⟩ rfl) (.cons _ (.cons _ (.cons _ .nil)))),
      span, _, hspan => by
    have hcovers := hspan (List.cons_ne_nil dot _)
    simp only [Forest.pieces, List.map_cons, List.map_nil, Piece.meaning, Derivation.meaning_eq]
    rw [hcovers]
    rfl
  | .noAssignments, .nil, _, _, _ => rfl
  | .assignmentList, .cons _ .nil, _, _, _ => by
    simp only [Forest.pieces, List.map_cons, List.map_nil, Piece.meaning, Derivation.meaning_eq]
    rfl
  | .assignmentListComma, .cons _ (.cons _ .nil), _, _, _ => by
    simp only [Forest.pieces, List.map_cons, List.map_nil, Piece.meaning, Derivation.meaning_eq]
    rfl
  | .firstAssignment, .cons _ .nil, _, _, _ => by
    simp only [Forest.pieces, List.map_cons, List.map_nil, Piece.meaning, Derivation.meaning_eq]
    rfl
  | .moreAssignments, .cons _ (.cons _ (.cons _ .nil)), _, _, _ => by
    simp only [Forest.pieces, List.map_cons, List.map_nil, Piece.meaning, Derivation.meaning_eq]
    rfl
  | .assignment, .cons (.leaf ⟨.identifier _, _, _⟩ rfl) (.cons _ (.cons _ .nil)), _, _, _ => by
    simp only [Forest.pieces, List.map_cons, List.map_nil, Piece.meaning, Derivation.meaning_eq]
    rfl
  | .textValue, .cons (.leaf ⟨.text _, _, _⟩ rfl) .nil, span, hvisible, hspan => by
    have hcovers := (hspan (List.cons_ne_nil _ _)).trans
      (spanOf_singleton (hvisible _ List.mem_cons_self))
    rw [hcovers]
    rfl
  | .numberValue, .cons (.leaf ⟨.number _, _, _⟩ rfl) .nil, span, hvisible, hspan => by
    have hcovers := (hspan (List.cons_ne_nil _ _)).trans
      (spanOf_singleton (hvisible _ List.mem_cons_self))
    rw [hcovers]
    rfl
  | .wordValue, .cons (.leaf ⟨.identifier _, _, _⟩ rfl) .nil, span, hvisible, hspan => by
    have hcovers := (hspan (List.cons_ne_nil _ _)).trans
      (spanOf_singleton (hvisible _ List.mem_cons_self))
    rw [hcovers]
    rfl
  | .edge, .cons ends (.cons _ (.cons _ .nil)), span, _, hspan => by
    have hcovers := hspan (List.append_ne_nil_of_left_ne_nil (ends.head_word_ne_nil rfl) _)
    simp only [Forest.pieces, List.map_cons, List.map_nil, Piece.meaning, Derivation.meaning_eq]
    rw [hcovers]
    rfl
  | .explicitHead, .cons (.leaf ⟨.identifier _, _, _⟩ rfl)
      (.cons _ (.cons (.leaf ⟨.identifier _, _, _⟩ rfl) .nil)), _, _, _ => rfl
  | .implicitHead, .cons _ (.cons (.leaf ⟨.identifier _, _, _⟩ rfl) .nil), _, _, _ => rfl
  | .noOptions, .nil, _, _, _ => rfl
  | .moreOptions, .cons _ (.cons _ .nil), _, _, _ => by
    simp only [Forest.pieces, List.map_cons, List.map_nil, Piece.meaning, Derivation.meaning_eq]
    rfl
  | .noPayload, .nil, _, _, _ => rfl
  | .payload, .cons (.leaf ⟨.payload _, _, _⟩ rfl) .nil, _, _, _ => rfl
  | .setting, .cons (.leaf ⟨.identifier _, _, _⟩ rfl) (.cons _ (.cons _ .nil)), _, _, _ => by
    simp only [Forest.pieces, List.map_cons, List.map_nil, Piece.meaning, Derivation.meaning_eq]
    rfl

/-! ### What a frame holds -/

/-- The frame is what the parser keeps of the derivation. -/
structure Frame.Holds (frame : Frame) (piece : Piece) : Prop where
  /-- The meaning. -/
  meaning : frame.meaning = piece.meaning
  /-- The frame covers what the word covers. -/
  cover : Span.cover? [frame.span] = Span.cover? (piece.word.map Token.span)
  /-- The word consists of visible tokens. -/
  visible : Visible piece.word

theorem Forest.length_pieces {xs : List Symbol} (f : Forest xs) : f.pieces.length = xs.length := by
  cases f with
  | nil => rfl
  | cons first rest =>
    have ih := rest.length_pieces
    rw [pieces, List.length_cons, List.length_cons, ih]

theorem Forest.flatMap_word_pieces {xs : List Symbol} (f : Forest xs) :
    f.pieces.flatMap Piece.word = f.word := by
  cases f with
  | nil => rfl
  | cons first rest =>
    have ih := rest.flatMap_word_pieces
    rw [pieces, List.flatMap_cons, ih]
    rfl

theorem Forest.flatMap_events_pieces {xs : List Symbol} (f : Forest xs) :
    f.pieces.flatMap Piece.events = f.events := by
  cases f with
  | nil => rfl
  | cons first rest =>
    have ih := rest.flatMap_events_pieces
    rw [pieces, List.flatMap_cons, ih]
    rfl

theorem Forest.pieces_injective : {xs : List Symbol} → {f g : Forest xs} →
    f.pieces = g.pieces → f = g
  | _, .nil, .nil, _ => rfl
  | _, .cons first rest, .cons first' rest', h => by
    obtain ⟨hfirst, hrest⟩ := List.cons.inj h
    obtain rfl := eq_of_heq (Piece.mk.inj hfirst).2
    rw [pieces_injective hrest]

/-- Derivations from the right symbols in a row make up a forest. -/
theorem Forest.exists_pieces {xs : List Symbol} (pieces : List Piece)
    (h : pieces.map Piece.symbol = xs) : ∃ f : Forest xs, f.pieces = pieces := by
  subst h
  induction pieces with
  | nil => exact ⟨.nil, rfl⟩
  | cons p pieces ih =>
    obtain ⟨f, hf⟩ := ih
    exact ⟨.cons p.tree f, congrArg (p :: ·) hf⟩

section

variable {frames : List Frame} {pieces : List Piece}

theorem map_meaning_of_holds (h : List.Forall₂ Frame.Holds frames pieces) :
    frames.map Frame.meaning = pieces.map Piece.meaning := by
  induction h with
  | nil => rfl
  | cons hfirst _ ih => rw [List.map_cons, List.map_cons, hfirst.meaning, ih]

theorem visible_of_holds (h : List.Forall₂ Frame.Holds frames pieces) :
    Visible (pieces.flatMap Piece.word) := by
  induction h with
  | nil => exact fun _ hnil => absurd hnil List.not_mem_nil
  | cons hfirst _ ih =>
    intro token htoken
    rcases List.mem_append.1 htoken with hword | hrest
    · exact hfirst.visible token hword
    · exact ih token hrest

theorem cover?_of_holds (h : List.Forall₂ Frame.Holds frames pieces) :
    Span.cover? (frames.map Frame.span) =
      Span.cover? ((pieces.flatMap Piece.word).map Token.span) := by
  induction h with
  | nil => rfl
  | cons hfirst _ ih =>
    rw [List.map_cons, Span.cover?_cons, hfirst.cover, ih, List.flatMap_cons, List.map_append,
      Span.cover?_append]

end

/-- **A reduction builds the derivation of its rule.**  If the frames on top hold derivations from
the right-hand side, they are replaced by a frame that holds the derivation made of them, and the
statement that the rule completes is handed over. -/
theorem reduce_holds {rule : Rule} {children : Forest rule.rhs} {frames : List Frame}
    {below : Frame} {rest : List Frame} {next : State} (here : Location)
    (hframes : List.Forall₂ Frame.Holds frames children.pieces.reverse)
    (hnext : below.state.goto? rule.lhs = some next) :
    ∃ frame : Frame, frame.state = next ∧ frame.Holds ⟨_, .branch rule children⟩ ∧
      reduce rule here (frames ++ below :: rest) =
        .ok (frame :: below :: rest, (rule.completes children.contents).head?) := by
  have hlength : frames.length = rule.length := by
    rw [hframes.length_eq, List.length_reverse, children.length_pieces]
    rfl
  have hreverse : List.Forall₂ Frame.Holds frames.reverse children.pieces := by
    rw [← List.reverse_reverse children.pieces]
    exact List.rel_reverse hframes
  have hvisible := visible_of_holds hreverse
  have hcover := cover?_of_holds hreverse
  rw [children.flatMap_word_pieces] at hvisible hcover
  set span := (Span.cover? (frames.reverse.map Frame.span)).getD (.empty here) with hspan
  have hspanOf : children.word ≠ [] → span = spanOf children.word := by
    intro hword
    rw [hspan, hcover, getD_cover? hvisible hword]
  refine ⟨⟨next, (Derivation.branch rule children).meaning, span⟩, rfl, ⟨rfl, ?_, hvisible⟩, ?_⟩
  · show Span.cover? [span] = Span.cover? (children.word.map Token.span)
    rw [hspan, Span.cover?_cover, hcover]
  · unfold reduce
    rw [← hlength, List.drop_left, List.take_left]
    simp only
    rw [map_meaning_of_holds hreverse, rule.meaning?_pieces children span hvisible hspanOf]
    simp only [hnext]
    rfl

end CallGraph
