import CallGraph.Proofs.Source.Place
import CallGraph.Proofs.Token.Visible

/-!
# Where tokens lie

The tokens of a text lie one behind the other in it, and the end token lies at its end.

* `Token.Encloses` — a payload token with the text between its braces;
* `Layout` — how the tokens of a text lie in it;
* `Scanner.layout` — the tokens that the scanner cuts lie like this.
-/

namespace CallGraph

/-- The token covers a payload, that is `inner` between braces, in the text that starts at `origin`. -/
def Token.Encloses (origin : Location) (text : List Char) (token : Token) (inner : String) : Prop :=
  ∃ before behind, text = before ++ '\x7b' :: inner.toList ++ '\x7d' :: behind ∧
    token.span = .ofText (origin.advance before) ('\x7b' :: inner.toList ++ ['\x7d'])

/-- How the tokens lie in the text that starts at `origin`. -/
structure Layout (origin : Location) (text : List Char) (tokens : List Token) (last : Token) :
    Prop where
  /-- Each token covers a piece of the text. -/
  within : ∀ token ∈ tokens, token.span.Within origin text
  /-- None of them is empty. -/
  visible : Visible tokens
  /-- Each token stops before the next one starts. -/
  ordered : tokens.Pairwise fun a b => a.span.stop ≤ b.span.start
  /-- A payload stands between braces. -/
  encloses : ∀ token ∈ tokens, ∀ inner, token.kind = .payload inner →
    token.Encloses origin text inner
  /-- The end token stands at the end. -/
  last_eq : last = .endAt (origin.advance text)

/-! ### Lexemes -/

namespace Lexeme

theorem kind_quoted (input : List Char) : (quoted input).kind ≠ .endOfInput ∧
    ∀ inner, (quoted input).kind ≠ .payload inner := by
  unfold quoted
  generalize quotedRun input = r
  obtain ⟨said, run, rest⟩ := r
  simp only
  split
  · simp
  · split
    · split <;> simp
    · simp
  · simp

theorem kind_simple (c : Char) (cs : List Char) : (simple c cs).kind ≠ .endOfInput ∧
    ∀ inner, (simple c cs).kind ≠ .payload inner := by
  unfold simple
  split
  · simp
  · unfold punctuation?
    split
    · rename_i kind hkind
      split at hkind <;> simp only [Option.some.injEq, reduceCtorEq] at hkind <;> subst hkind <;> simp
    · split <;> simp

/-- A numeral is a number or malformed. -/
theorem kind_numeral_cases (sign input : List Char) :
    (∃ n, (numeral sign input).kind = .number n) ∨
      (numeral sign input).kind = .invalid .malformedNumber := by
  have hkinds : ∀ (fits : Bool) (n : Int),
      (∃ m, (if fits then TokenKind.number n else .invalid .malformedNumber) = .number m) ∨
        (if fits then TokenKind.number n else .invalid .malformedNumber) =
          .invalid .malformedNumber := by
    intro fits n
    cases fits
    · exact .inr rfl
    · exact .inl ⟨n, rfl⟩
  exact hkinds _ _

theorem kind_numeral (sign input : List Char) : (numeral sign input).kind ≠ .endOfInput ∧
    ∀ inner, (numeral sign input).kind ≠ .payload inner := by
  rcases kind_numeral_cases sign input with ⟨n, hkind⟩ | hkind <;> simp [hkind]

theorem kind_block (input : List Char) : (block input).kind ≠ .endOfInput ∧
    ∀ inner, (block input).kind = .payload inner →
      (block input).text = '\x7b' :: inner.toList ++ ['\x7d'] := by
  unfold block
  split
  · refine ⟨TokenKind.noConfusion, fun inner hkind => ?_⟩
    rw [← TokenKind.payload.inj hkind, String.toList_ofList]
  · simp

/-- A lexeme is never the end, and a payload stands between braces. -/
theorem kind_lexeme (c : Char) (cs : List Char) : (lexeme c cs).kind ≠ .endOfInput ∧
    ∀ inner, (lexeme c cs).kind = .payload inner →
      (lexeme c cs).text = '\x7b' :: inner.toList ++ ['\x7d'] := by
  unfold lexeme
  split
  · exact ⟨(kind_quoted cs).1, fun inner hkind => absurd hkind ((kind_quoted cs).2 inner)⟩
  split
  · exact kind_block cs
  split
  · exact ⟨(kind_numeral _ _).1, fun inner hkind => absurd hkind ((kind_numeral _ _).2 inner)⟩
  split
  · exact ⟨(kind_numeral _ _).1, fun inner hkind => absurd hkind ((kind_numeral _ _).2 inner)⟩
  · exact ⟨(kind_simple c cs).1, fun inner hkind => absurd hkind ((kind_simple c cs).2 inner)⟩

end Lexeme

/-! ### The scanner -/

namespace Scanner

/-- Where only a gap is left, the next token is the end. -/
theorem next_of_nil {s : Scanner} (h : (spanTrivia false s.rest).2 = []) :
    s.next = (.endAt (s.position.advance s.rest), ⟨s.source, [], s.position.advance s.rest⟩) := by
  have hgap := spanTrivia_append false s.rest
  rw [h, List.append_nil] at hgap
  unfold next
  generalize spanTrivia false s.rest = found at h hgap ⊢
  obtain ⟨gap, rest⟩ := found
  obtain rfl : rest = [] := h
  rw [← hgap]

/-- Where something is left behind the gap, the next token is a lexeme. -/
theorem next_of_cons {s : Scanner} {c : Char} {cs : List Char}
    (h : (spanTrivia false s.rest).2 = c :: cs) :
    s.next = (⟨(lexeme c cs).kind, String.ofList (lexeme c cs).text,
        .ofText (s.position.advance (spanTrivia false s.rest).1) (lexeme c cs).text⟩,
      ⟨s.source, (lexeme c cs).rest,
        (s.position.advance (spanTrivia false s.rest).1).advance (lexeme c cs).text⟩) := by
  unfold next
  generalize spanTrivia false s.rest = found at h ⊢
  obtain ⟨gap, rest⟩ := found
  obtain rfl : rest = c :: cs := h
  rfl

/-- The next token is the end where nothing but a gap is left. -/
theorem rest_of_isEnd {s : Scanner} (h : s.next.1.isEnd = true) :
    (spanTrivia false s.rest).2 = [] := by
  cases hrest : (spanTrivia false s.rest).2 with
  | nil => rfl
  | cons c cs =>
    rw [next_of_cons hrest] at h
    exact absurd (of_decide_eq_true h) (Lexeme.kind_lexeme c cs).1

/-- Otherwise something is left behind the gap. -/
theorem exists_rest_of_not_isEnd {s : Scanner} (h : ¬s.next.1.isEnd = true) :
    ∃ c cs, (spanTrivia false s.rest).2 = c :: cs := by
  cases hrest : (spanTrivia false s.rest).2 with
  | nil =>
    rw [next_of_nil hrest] at h
    exact absurd rfl h
  | cons c cs => exact ⟨c, cs, rfl⟩

/-- The next token is the end, or a lexeme behind a gap. -/
theorem next_cases (s : Scanner) :
    (s.next.1 = .endAt (s.position.advance s.rest)) ∨
    ∃ gap c cs, s.rest = gap ++ c :: cs ∧
      s.next.1 = ⟨(lexeme c cs).kind, String.ofList (lexeme c cs).text,
        .ofText (s.position.advance gap) (lexeme c cs).text⟩ ∧
      s.next.2.rest = (lexeme c cs).rest ∧
      s.next.2.position = (s.position.advance gap).advance (lexeme c cs).text := by
  have hgap := spanTrivia_append false s.rest
  cases hrest : (spanTrivia false s.rest).2 with
  | nil =>
    rw [next_of_nil hrest]
    exact .inl rfl
  | cons c cs =>
    rw [next_of_cons hrest]
    rw [hrest] at hgap
    exact .inr ⟨_, c, cs, hgap.symm, rfl, rfl, rfl⟩

/-- The tokens of a text lie behind a token that is cut from its front. -/
theorem layout_cons {origin : Location} {gap inside behind : List Char} {token last : Token}
    {tokens : List Token} (hspan : token.span = .ofText (origin.advance gap) inside)
    (hvisible : inside ≠ [])
    (hkind : ∀ inner, token.kind = .payload inner → inside = '\x7b' :: inner.toList ++ ['\x7d'])
    (h : Layout ((origin.advance gap).advance inside) behind tokens last) :
    Layout origin (gap ++ inside ++ behind) (token :: tokens) last := by
  rw [← Location.advance_append] at h
  have htext : gap ++ inside ++ behind = (gap ++ inside) ++ behind ++ [] := (List.append_nil _).symm
  refine ⟨?_, ?_, ?_, ?_, ?_⟩
  · intro other hother
    rcases List.mem_cons.1 hother with rfl | hother
    · exact ⟨gap, inside, behind, rfl, hspan⟩
    · rw [htext]
      exact (h.within other hother).shift
  · intro other hother
    rcases List.mem_cons.1 hother with rfl | hother
    · have hpos := byteLength_pos hvisible
      rw [hspan]
      simp only [Span.isEmpty, Span.ofText, beq_eq_false_iff_ne]
      omega
    · exact h.visible other hother
  · refine List.pairwise_cons.2 ⟨fun other hother => ?_, h.ordered⟩
    have hstart := (h.within other hother).bounds.1
    rw [hspan, Span.stop_ofText, ← Location.advance_append]
    exact hstart
  · intro other hother inner hinner
    rcases List.mem_cons.1 hother with rfl | hother
    · refine ⟨gap, behind, ?_, ?_⟩
      · rw [hkind inner hinner]
        simp only [List.append_assoc, List.cons_append, List.nil_append]
      · rw [hspan, hkind inner hinner]
    · obtain ⟨before, after, rfl, hother⟩ := h.encloses other hother inner hinner
      refine ⟨gap ++ inside ++ before, after, ?_, ?_⟩
      · simp only [List.append_assoc, List.cons_append]
      · rw [hother, Location.advance_append origin (gap ++ inside)]
  · rw [h.last_eq, Location.advance_append origin (gap ++ inside)]

/-- **The tokens lie one behind the other** in the text. -/
theorem layout (s : Scanner) : Layout s.position s.rest s.tokens.1 s.tokens.2 := by
  fun_induction tokens s with
  | case1 s h =>
    rcases s.next_cases with hlast | ⟨gap, c, cs, -, hnext, -⟩
    · exact ⟨List.forall_mem_nil _, List.forall_mem_nil _, .nil, List.forall_mem_nil _, hlast⟩
    · rw [hnext] at h
      exact absurd (of_decide_eq_true h) (Lexeme.kind_lexeme c cs).1
  | case2 s h rest last hrest ih =>
    rcases s.next_cases with hlast | ⟨gap, c, cs, htext, hnext, hleft, hposition⟩
    · rw [hlast] at h
      exact absurd rfl h
    · rw [hrest, hleft, hposition] at ih
      rw [htext, ← Lexeme.text_append_rest c cs, ← List.append_assoc]
      refine layout_cons ?_ (Lexeme.text_ne_nil c cs) ?_ ih
      · rw [hnext]
      · rw [hnext]
        exact (Lexeme.kind_lexeme c cs).2

end Scanner

end CallGraph
