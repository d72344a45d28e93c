import CallGraph.Proofs.Token.Locality

/-!
# Cutting a text into tokens

How a text is cut into tokens, told without the scanner: a gap, a token, a gap, a token, up to a last
gap.  A piece of a text that starts with one of its tokens and stops with one is cut into the same
tokens.

* `Scans` — the tokens of a text that starts at some location;
* `Scanner.scans`, `Scans.tokens_eq` — they are those that the scanner cuts;
* `Scans.split` — tokens from the middle of a text on;
* `Span.Delimits` — a span from the first of some tokens to the last;
* `Scans.excerpt` — **the piece of a text that some tokens cover** is cut into these tokens, at the same
  places, whatever stands behind it.
-/

namespace CallGraph

/-- The text that starts at the location is cut into the tokens. -/
inductive Scans : Location → List Char → List Token → Prop where
  | nil {here : Location} {text : List Char} : Gap [] text → Scans here text []
  | cons {here : Location} {gap inside behind : List Char} {kind : TokenKind} {tokens : List Token} :
    Trivia gap → Cuts kind inside behind →
    Scans ((here.advance gap).advance inside) behind tokens →
    Scans here (gap ++ (inside ++ behind))
      (⟨kind, .ofList inside, .ofText (here.advance gap) inside⟩ :: tokens)

/-! ### The scanner -/

namespace Scanner

/-- **The scanner** cuts a text like this. -/
theorem scans (s : Scanner) : Scans s.position s.rest s.tokens.1 := by
  fun_induction tokens s with
  | case1 s h =>
    have hgap := (gap_spanTrivia false s.rest).1 rfl
    have happend := spanTrivia_append false s.rest
    rw [rest_of_isEnd h, List.append_nil] at happend
    rw [rest_of_isEnd h, happend] at hgap
    exact .nil hgap
  | case2 s h rest last hscanned ih =>
    have hgap := (gap_spanTrivia false s.rest).1 rfl
    have hmaximal := not_startsGap_spanTrivia false s.rest
    have happend := spanTrivia_append false s.rest
    obtain ⟨c, cs, hrest⟩ := exists_rest_of_not_isEnd h
    rw [hrest] at hgap hmaximal happend
    have htrivia := hgap.resolve_right fun hopen => List.cons_ne_nil c cs hopen.1
    have hcut := Lexeme.text_append_rest c cs
    obtain ⟨d, text, htext⟩ := List.exists_cons_of_ne_nil (Lexeme.text_ne_nil c cs)
    rw [htext] at hcut
    obtain ⟨rfl, htail⟩ := List.cons.inj hcut
    have hcuts : Cuts (lexeme d cs).kind (lexeme d cs).text (lexeme d cs).rest := by
      refine ⟨?_, d, text, htext, ?_⟩
      · rwa [Lexeme.text_append_rest]
      · rw [show text ++ (lexeme d cs).rest = cs from htail]
    rw [hscanned, next_of_cons hrest] at ih
    have hscans := Scans.cons htrivia hcuts ih
    rw [Lexeme.text_append_rest, happend] at hscans
    rw [next_of_cons hrest]
    exact hscans

end Scanner

namespace Scans

variable {here : Location} {text gap : List Char} {tokens : List Token}

/-- What is cut like this is cut by the scanner. -/
theorem tokens_eq (h : Scans here text tokens) (source : String) :
    (Scanner.mk source text here).tokens = (tokens, .endAt (here.advance text)) := by
  induction h with
  | @nil here text hgap =>
    have hrest : (spanTrivia false (Scanner.mk source text here).rest).2 = [] := by
      rw [spanTrivia_of_gap hgap]
    have hnext := Scanner.next_of_nil hrest
    rw [Scanner.tokens, dif_pos (by rw [hnext]; rfl), hnext]
  | @cons here gap inside behind kind tokens htrivia hcuts _ ih =>
    obtain ⟨c, text, rfl, hcut⟩ := hcuts.cut
    have hspan := spanTrivia_of_trivia htrivia hcuts.maximal
    have hrest : (spanTrivia false (Scanner.mk source (gap ++ (c :: text ++ behind)) here).rest).2 =
        c :: (text ++ behind) := by
      rw [hspan]
      rfl
    have hnext := Scanner.next_of_cons hrest
    rw [hcut, hspan] at hnext
    have hkind : kind ≠ .endOfInput := by
      have hne := (Lexeme.kind_lexeme c (text ++ behind)).1
      rwa [hcut] at hne
    rw [Scanner.tokens, dif_neg (by rw [hnext]; simpa [Token.isEnd] using hkind), hnext]
    dsimp only
    rw [ih, Location.advance_append, Location.advance_append]

/-- A token at the very front of a text. -/
theorem cut {kind : TokenKind} {inside behind : List Char} (hcuts : Cuts kind inside behind)
    (h : Scans (here.advance inside) behind tokens) :
    Scans here (inside ++ behind) (⟨kind, .ofList inside, .ofText here inside⟩ :: tokens) :=
  .cons .nil hcuts h

/-- Blanks and comments before a text make no difference but in places. -/
theorem gap_append (hgap : Trivia gap) (h : Scans (here.advance gap) text tokens) :
    Scans here (gap ++ text) tokens := by
  cases h with
  | nil hrest => exact .nil (hgap.append_gap hrest)
  | cons htrivia hcuts hscans =>
    rw [← Location.advance_append here gap] at hscans ⊢
    rw [← List.append_assoc]
    exact .cons (hgap.append htrivia) hcuts hscans

/-- The tokens from the middle of a text on are those of the rest of the text. -/
theorem split {before : List Token} (h : Scans here text (before ++ tokens)) :
    ∃ passed rest, text = passed ++ rest ∧ Scans (here.advance passed) rest tokens := by
  induction before generalizing here text with
  | nil => exact ⟨[], text, rfl, h⟩
  | cons token before ih =>
    cases h with
    | @cons _ gap inside behind _ _ _ _ hscans =>
      obtain ⟨passed, rest, rfl, hrest⟩ := ih hscans
      refine ⟨gap ++ inside ++ passed, rest, ?_, ?_⟩
      · simp only [List.append_assoc]
      · rwa [Location.advance_append, Location.advance_append]

/-- **The piece of a text that some tokens cover** is cut into the same tokens, whatever is cut behind
it.  It starts with the first of them and stops with the last. -/
theorem excerpt {token : Token} {body behind : List Token}
    (h : Scans here text (token :: body ++ behind))
    (hvalid : ∀ t ∈ token :: body, ∀ mistake, t.kind ≠ .invalid mistake) :
    ∃ gap piece rest, text = gap ++ (piece ++ rest) ∧ Trivia gap ∧ piece ≠ [] ∧
      token.span.location = here.advance gap ∧
      (∀ last, (token :: body).getLast? = some last →
        last.span.stop = ((here.advance gap).advance piece).offset) ∧
      ∀ ending tokens, Stops isNamePart ending →
        Scans ((here.advance gap).advance piece) ending tokens →
        Scans (here.advance gap) (piece ++ ending) (token :: body ++ tokens) := by
  induction body generalizing here text token with
  | nil =>
    cases h with
    | @cons _ gap inside rest kind _ htrivia hcuts _ =>
      refine ⟨gap, inside, rest, rfl, htrivia, hcuts.inside_ne_nil, rfl, ?_, ?_⟩
      · intro last hlast
        rw [← Option.some.inj hlast]
        exact Span.stop_ofText _ _
      intro ending tokens hending hscans
      have hcut := hcuts.replace (hvalid _ List.mem_cons_self) (bounds_of_stops hending)
      exact .cut hcut hscans
  | cons next body ih =>
    cases h with
    | @cons _ gap inside rest kind _ htrivia hcuts hscans =>
      obtain ⟨gap', piece, rest', rfl, htrivia', hpiece, -, hstop, hending⟩ :=
        ih hscans (List.forall_mem_cons.1 hvalid).2
      refine ⟨gap, inside ++ gap' ++ piece, rest', ?_, htrivia, ?_, rfl, ?_, ?_⟩
      · simp only [List.append_assoc]
      · exact List.append_ne_nil_of_right_ne_nil _ hpiece
      · intro last hlast
        rw [List.getLast?_cons_cons] at hlast
        rw [hstop last hlast, Location.advance_append, Location.advance_append]
      · intro ending tokens hhead hbehind
        rw [Location.advance_append, Location.advance_append] at hbehind
        have hrest := (hending ending tokens hhead hbehind).gap_append htrivia'
        -- Behind the first token the text goes on as before.
        have hbounds : Bounds (gap' ++ piece ++ rest') (gap' ++ piece ++ ending) :=
          bounds_append (List.append_ne_nil_of_right_ne_nil gap' hpiece)
        rw [List.append_assoc, List.append_assoc] at hbounds
        have hall := Scans.cut (hcuts.replace (hvalid _ List.mem_cons_self) hbounds) hrest
        simpa only [List.append_assoc, List.cons_append] using hall

end Scans

/-- The span starts with the first token of the word and stops with the last one. -/
def Span.Delimits (s : Span) (word : List Token) : Prop :=
  ∃ first last, word.head? = some first ∧ word.getLast? = some last ∧
    s.location = first.span.location ∧ s.stop = last.span.stop

theorem Span.eq_ofText {s : Span} {here : Location} {text : List Char} (hlocation : s.location = here)
    (hstop : s.stop = (here.advance text).offset) : s = .ofText here text := by
  obtain ⟨location, length⟩ := s
  obtain rfl : location = here := hlocation
  rw [Location.offset_advance] at hstop
  have hlength : length = byteLength text := Nat.add_left_cancel hstop
  rw [hlength]
  rfl

end CallGraph
