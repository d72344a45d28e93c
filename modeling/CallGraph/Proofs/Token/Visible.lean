import CallGraph.Proofs.Source.Place
import CallGraph.Token.Scanner

/-!
# Tokens cover something

Every token that the scanner cuts from a text covers at least one byte, and the end token behind
them is the only one that does not.
-/

namespace CallGraph

/-- All tokens of the word cover something. -/
def Visible (word : List Token) : Prop := ∀ token ∈ word, token.span.isEmpty = false

/-- What covers something starts before it stops. -/
theorem Span.start_lt_stop {s : Span} (h : s.isEmpty = false) : s.start < s.stop := by
  have hlength : s.length ≠ 0 := by simpa [isEmpty] using h
  exact Nat.lt_add_of_pos_right (Nat.pos_of_ne_zero hlength)

namespace Scanner

theorem isEmpty_span_next (s : Scanner) (h : s.next.1.isEnd = false) :
    s.next.1.span.isEmpty = false := by
  unfold next at h ⊢
  generalize spanTrivia false s.rest = found at h ⊢
  obtain ⟨gap, rest⟩ := found
  cases rest with
  | nil => simp [Token.isEnd, Token.endAt] at h
  | cons c cs =>
    have hpos := byteLength_pos (Lexeme.text_ne_nil c cs)
    simp only [Span.isEmpty, Span.ofText, beq_eq_false_iff_ne]
    omega

theorem visible_tokens (s : Scanner) : Visible s.tokens.1 := by
  fun_induction tokens s with
  | case1 s h => exact fun token htoken => absurd htoken List.not_mem_nil
  | case2 s h rest last hrest ih =>
    intro token htoken
    rcases List.mem_cons.1 htoken with rfl | htoken
    · exact s.isEmpty_span_next (Bool.eq_false_iff.2 h)
    · rw [hrest] at ih
      exact ih token htoken

theorem kind_last (s : Scanner) : s.tokens.2.kind = .endOfInput := by
  fun_induction tokens s with
  | case1 s h => exact of_decide_eq_true h
  | case2 s h rest last hrest ih =>
    rw [hrest] at ih
    exact ih

/-- The tokens before the end token are not the end. -/
theorem kind_ne_endOfInput (s : Scanner) : ∀ token ∈ s.tokens.1, token.kind ≠ .endOfInput := by
  fun_induction tokens s with
  | case1 s h => exact List.forall_mem_nil _
  | case2 s h rest last hrest ih =>
    rw [hrest] at ih
    exact List.forall_mem_cons.2 ⟨fun hkind => h (decide_eq_true hkind), ih⟩

end Scanner

end CallGraph
