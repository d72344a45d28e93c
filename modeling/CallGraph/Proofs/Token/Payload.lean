import Mathlib.Logic.Function.Iterate
import CallGraph.Parser.Reduction
import CallGraph.Proofs.Token.Balance

/-!
# Sources as payloads

A source that stands between braces is read as one payload, whatever follows, and the payload is read like
the source.

* `Location.shift`, `Token.shift` — places of a text that starts at some location of a larger one;
* `Scans.shift` — a text is cut into **the same tokens wherever it starts**, but in other places;
* `Token.ReadFrom` — a token covers its own text in a larger text;
* `Nestable` — a source without mistakes whose comments are plain; `Nestable.cuts` — between braces it is
  one token; `Nestable.braced` — and that is a source of this kind;
* `payload_read_like_source` — all of it, for every source and everything that follows.
-/

namespace CallGraph

/-! ### Places of a text in a larger one -/

/-- Where a point of a text is if the text starts at `origin`. -/
def Location.shift (origin here : Location) : Location where
  line := origin.line + (here.line - 1)
  column := if here.line = 1 then origin.column + (here.column - 1) else here.column
  offset := origin.offset + here.offset

/-- The token of a text that starts at `origin`. -/
def Token.shift (origin : Location) (t : Token) : Token :=
  { t with span := { t.span with location := origin.shift t.span.location } }

/-- The token covers its own text in the text that starts at `origin`. -/
def Token.ReadFrom (origin : Location) (text : List Char) (t : Token) : Prop :=
  ∃ before behind, text = before ++ (t.text.toList ++ behind) ∧
    t.span = .ofText (origin.advance before) t.text.toList

section

variable {origin here : Location} {text passed behind : List Char} {tokens : List Token}

theorem Location.shift_step (hline : 1 ≤ here.line) (hcolumn : 1 ≤ here.column) (c : Char) :
    origin.shift (here.step c) = (origin.shift here).step c := by
  unfold shift step
  by_cases hc : c = '\n'
  · -- Behind a line feed the column no longer depends on where the text starts.
    have hlater : here.line + 1 ≠ 1 := by omega
    simp only [if_pos hc, if_neg hlater, Location.mk.injEq, true_and]
    omega
  · simp only [if_neg hc, Location.mk.injEq, true_and]
    refine ⟨?_, by omega⟩
    by_cases hfirst : here.line = 1
    · rw [if_pos hfirst, if_pos hfirst]
      omega
    · rw [if_neg hfirst, if_neg hfirst]

/-- Lines and columns are counted from one. -/
theorem Location.one_le_step (hline : 1 ≤ here.line) (c : Char) :
    1 ≤ (here.step c).line ∧ 1 ≤ (here.step c).column := by
  unfold step
  split
  · exact ⟨Nat.le_add_left 1 _, Nat.le_refl 1⟩
  · exact ⟨hline, Nat.le_add_left 1 _⟩

theorem Location.shift_advance (hline : 1 ≤ here.line) (hcolumn : 1 ≤ here.column) (text : List Char) :
    origin.shift (here.advance text) = (origin.shift here).advance text := by
  induction text generalizing here with
  | nil => rfl
  | cons c text ih =>
    obtain ⟨hline', hcolumn'⟩ := one_le_step hline c
    rw [advance_cons, advance_cons, ← shift_step hline hcolumn]
    exact ih hline' hcolumn'

/-- **Behind a beginning of the text** its point is the one that counting from `origin` leads to. -/
theorem Location.shift_start (origin : Location) (text : List Char) :
    origin.shift (start.advance text) = origin.advance text := by
  have hstart : origin.shift start = origin := by
    unfold shift start
    simp
  rw [shift_advance (Nat.le_refl 1) (Nat.le_refl 1), hstart]

/-- **The same tokens** are cut wherever the text starts. -/
theorem Scans.shift (h : Scans (Location.start.advance passed) text tokens) (origin : Location) :
    Scans (origin.advance passed) text (tokens.map (Token.shift origin)) := by
  generalize hhere : Location.start.advance passed = here at h
  induction h generalizing passed with
  | nil hgap => exact .nil hgap
  | @cons _ gap inside behind kind tokens htrivia hcuts _ ih =>
    subst hhere
    have hpassed : Location.start.advance (passed ++ gap ++ inside) =
        ((Location.start.advance passed).advance gap).advance inside := by
      rw [Location.advance_append, Location.advance_append]
    have hbehind := ih hpassed
    have hplace : origin.shift ((Location.start.advance passed).advance gap) =
        (origin.advance passed).advance gap := by
      rw [← Location.advance_append, Location.shift_start, Location.advance_append]
    have htoken : Token.shift origin ⟨kind, .ofList inside,
        .ofText ((Location.start.advance passed).advance gap) inside⟩ =
        ⟨kind, .ofList inside, .ofText ((origin.advance passed).advance gap) inside⟩ := by
      rw [← hplace]
      rfl
    rw [List.map_cons, htoken]
    refine .cons htrivia hcuts ?_
    rwa [Location.advance_append, Location.advance_append] at hbehind

/-- Each token covers its own text, in every larger text. -/
theorem Scans.readFrom (h : Scans (origin.advance passed) text tokens) (rest : List Char) :
    ∀ token ∈ tokens, token.ReadFrom origin (passed ++ (text ++ rest)) := by
  generalize hhere : origin.advance passed = here at h
  induction h generalizing passed with
  | nil => exact List.forall_mem_nil _
  | @cons _ gap inside behind kind tokens _ _ _ ih =>
    subst hhere
    have hpassed : origin.advance (passed ++ gap ++ inside) =
        ((origin.advance passed).advance gap).advance inside := by
      rw [Location.advance_append, Location.advance_append]
    have hbehind := ih hpassed
    simp only [List.append_assoc] at hbehind ⊢
    refine List.forall_mem_cons.2 ⟨⟨passed ++ gap, behind ++ rest, ?_, ?_⟩, hbehind⟩
    · rw [String.toList_ofList, List.append_assoc]
    · rw [String.toList_ofList, Location.advance_append]

end

/-! ### Sources between braces -/

/-- The source between braces. -/
def braced (source : String) : String := "\x7b" ++ source ++ "\x7d"

theorem toList_braced (source : String) : (braced source).toList = '\x7b' :: (source.toList ++ ['\x7d']) := by
  rw [braced, String.toList_append, String.toList_append]
  rfl

/-- A source that a payload may hold: none of its tokens is a mistake, and there is neither a quote nor a
brace in any of its comments. -/
structure Nestable (source : String) : Prop where
  /-- None of its tokens is a mistake. -/
  valid : ∀ token ∈ (Scanner.ofString source).tokens.1, ∀ mistake, token.kind ≠ .invalid mistake
  /-- Its comments are plain. -/
  quiet : ∀ gap ∈ (Scanner.ofString source).gaps, ∀ comment, CommentIn gap comment → Plain comment

namespace Nestable

variable {source : String}

/-- The payload ends with the brace behind the source. -/
theorem block_eq (h : Nestable source) (rest : List Char) :
    block (source.toList ++ '\x7d' :: rest) =
      ⟨.payload source, '\x7b' :: (source.toList ++ ['\x7d']), rest⟩ := by
  have hbalanced : Balanced source.toList := (Scanner.ofString source).balanced h.valid h.quiet
  have hbody : blockBody 0 .outside (source.toList ++ '\x7d' :: rest) = some (source.toList, rest) := by
    rw [hbalanced, blockBody, if_pos ⟨rfl, rfl, rfl⟩, Option.map_some, passing, List.append_nil]
  rw [block, hbody]
  dsimp only
  rw [String.ofList_toList, List.cons_append]

/-- **Between braces** a source is one token, whatever follows. -/
theorem cuts (h : Nestable source) (rest : List Char) :
    Cuts (.payload source) (braced source).toList rest := by
  rw [toList_braced]
  refine ⟨?_, '\x7b', _, rfl, ?_⟩
  · rintro (hblank | hsign | ⟨hslash, -⟩)
    · exact absurd hblank (by decide)
    · exact absurd hsign (by decide)
    · exact absurd hslash (by decide)
  · rw [List.append_assoc, List.singleton_append]
    exact h.block_eq rest

/-- The tokens of a source between braces, and of what follows. -/
theorem scans (h : Nestable source) {origin : Location} {rest : List Char} {tokens : List Token}
    (hrest : Scans (origin.advance (braced source).toList) rest tokens) :
    Scans origin ((braced source).toList ++ rest)
      (⟨.payload source, braced source, .ofText origin (braced source).toList⟩ :: tokens) := by
  have hscans := Scans.cut (h.cuts rest) hrest
  rwa [String.ofList_toList] at hscans

/-- **A source between braces** is one that a payload may hold. -/
protected theorem braced (h : Nestable source) : Nestable (CallGraph.braced source) := by
  have hspan : spanTrivia false (Scanner.ofString (CallGraph.braced source)).rest =
      ([], (CallGraph.braced source).toList) := by
    have hmaximal := (h.cuts []).maximal
    rw [List.append_nil] at hmaximal
    exact spanTrivia_of_not_startsGap hmaximal
  have hnext : (Scanner.ofString (CallGraph.braced source)).next.2.rest = [] := by
    rw [toList_braced] at hspan
    have hfound := Scanner.next_of_cons (congrArg Prod.snd hspan)
    rw [hfound]
    exact congrArg Lexeme.rest (h.block_eq [])
  have hscans : Scans .start ((CallGraph.braced source).toList ++ []) _ := h.scans (.nil (.inl .nil))
  rw [List.append_nil] at hscans
  have htokens : (Scanner.ofString (CallGraph.braced source)).tokens = _ :=
    hscans.tokens_eq (CallGraph.braced source)
  constructor
  · rw [htokens]
    intro token htoken mistake
    rw [List.mem_singleton.1 htoken]
    exact TokenKind.noConfusion
  · -- Nothing stands before the payload, and nothing behind it.
    have hgaps : ∀ gap ∈ (Scanner.ofString (CallGraph.braced source)).gaps, gap = [] := by
      rw [Scanner.gaps, hspan]
      refine List.forall_mem_cons.2 ⟨rfl, fun gap hgap => ?_⟩
      split at hgap
      · cases hgap
      · rw [Scanner.gaps_of_nil hnext] at hgap
        exact List.mem_singleton.1 hgap
    intro gap hgap comment hcomment
    exact hcomment.plain (hgaps gap hgap ▸ plain_nil)

/-- So it may be put between braces again and again. -/
theorem braced_iterate (h : Nestable source) (depth : Nat) : Nestable (CallGraph.braced^[depth] source) := by
  induction depth with
  | zero => exact h
  | succ depth ih =>
    rw [Function.iterate_succ_apply']
    exact ih.braced

end Nestable

/-! ### All of it -/

/-- **A payload is read like its source.**  A source whose tokens are no mistakes and whose comments contain
neither quotes nor braces is put between braces, somewhere in a text and with anything behind it.

* The first token is a payload that carries exactly the source, and the tokens behind it are those of what
  stands behind the braces.
* The text of the payload, read from behind its first brace, has the tokens of the source, moved to their
  places in the larger text.
* There each of them covers its own text.
* All this goes for the source between braces as well, and so at every depth. -/
theorem payload_read_like_source (origin : Location) (source rest : String) (h : Nestable source) :
    let whole := Scanner.startingAt origin (braced source ++ rest)
    let behind := Scanner.startingAt (origin.advance (braced source).toList) rest
    let payload : Token := ⟨.payload source, braced source, .ofText origin (braced source).toList⟩
    let inner := Scanner.startingAt payload.innerLocation source
    let own := Scanner.ofString source
    whole.tokens = (payload :: behind.tokens.1, behind.tokens.2) ∧
      inner.tokens = (own.tokens.1.map (Token.shift payload.innerLocation),
        own.tokens.2.shift payload.innerLocation) ∧
      (∀ token ∈ inner.tokens.1, token.ReadFrom origin (braced source ++ rest).toList) ∧
      ∀ depth, Nestable (braced^[depth] source) := by
  intro whole behind payload inner own
  have hbehind : Scans (origin.advance (braced source).toList) rest.toList behind.tokens.1 :=
    behind.scans
  have hbehindTokens : behind.tokens = _ := hbehind.tokens_eq rest
  have hwhole := (h.scans hbehind).tokens_eq (braced source ++ rest)
  rw [← String.toList_append] at hwhole
  have hown : Scans (Location.start.advance []) source.toList own.tokens.1 := own.scans
  have hownTokens : own.tokens = _ := hown.tokens_eq source
  have hinner : Scans (origin.advance ['\x7b']) source.toList _ := hown.shift payload.innerLocation
  have hinnerTokens : inner.tokens = _ := hinner.tokens_eq source
  refine ⟨?_, ?_, ?_, h.braced_iterate⟩
  · refine Eq.trans hwhole ?_
    rw [hbehindTokens, String.toList_append, Location.advance_append]
  · rw [hinnerTokens, hownTokens]
    refine Prod.ext rfl ?_
    show Token.endAt _ = Token.shift _ (.endAt _)
    rw [← Location.shift_start]
    rfl
  · have hread := hinner.readFrom ('\x7d' :: rest.toList)
    have htext : (braced source ++ rest).toList = ['\x7b'] ++ (source.toList ++ '\x7d' :: rest.toList) := by
      rw [String.toList_append, toList_braced, List.cons_append, List.append_assoc]
      rfl
    rw [hinnerTokens, htext]
    exact hread

/-- A source with a payload inside, with quotes and braces in its texts, and with a comment. -/
theorem payload_read_like_source_nested :
    let source := "a = \"\\\"\x7b\"; # fine\n.b \x7b c \x7b\"\x7d\"\x7d \x7d"
    Nestable source ∧
      (Scanner.ofString (braced source ++ "d")).tokens.1.map Token.kind =
        [.payload source, .identifier "d"] := by
  intro source
  have hscanned : (Scanner.ofString source).tokens.1.map Token.kind =
        [.identifier "a", .equals, .text "\"\x7b", .semicolon, .dot, .identifier "b",
          .payload " c \x7b\"\x7d\"\x7d "] ∧
      (Scanner.ofString source).gaps =
        [[], [' '], [' '], [], " # fine\n".toList, [], [' '], []] ∧
      (Scanner.startingAt (Location.start.advance (braced source).toList) "d").tokens.1.map Token.kind =
        [.identifier "d"] := by
    decide +kernel
  obtain ⟨hkinds, hgaps, hbehind⟩ := hscanned
  have h : Nestable source := by
    constructor
    · intro token htoken mistake hmistake
      have hkind : token.kind ∈ (Scanner.ofString source).tokens.1.map Token.kind :=
        List.mem_map_of_mem htoken
      rw [hkinds, hmistake] at hkind
      simp at hkind
    · have hmarks : ∀ gap ∈ (Scanner.ofString source).gaps,
          '"' ∉ gap ∧ '\x7b' ∉ gap ∧ '\x7d' ∉ gap := by
        rw [hgaps]
        decide
      intro gap hgap comment hcomment
      obtain ⟨hquote, hopening, hclosing⟩ := hmarks gap hgap
      exact hcomment.plain ⟨hquote, hopening, hclosing⟩
  refine ⟨h, ?_⟩
  rw [Scanner.ofString, (payload_read_like_source .start source "d" h).1, List.map_cons, hbehind]

end CallGraph
