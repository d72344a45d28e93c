import CallGraph.Token.Lexeme

/-!
# What stands between tokens

Between two tokens there are blanks and comments only.  A comment goes on to the end of its line; behind
the last token it may also go on to the end of the text.

* `Trivia` — blanks and comments that end on their lines;
* `Gap` — what stands before the rest of a text, where the last comment may be open if nothing is left;
* `gap_spanTrivia` — what the scanner skips is such a gap;
* `StartsGap`, `not_startsGap_spanTrivia` — and it skips as much as it can;
* `spanTrivia_of_trivia`, `spanTrivia_of_gap` — every gap is skipped.
-/

namespace CallGraph

/-- A comment, the end of its line left out. -/
def IsComment (text : List Char) : Prop :=
  ∃ marker body, (marker = ['#'] ∨ marker = ['/', '/']) ∧ '\n' ∉ body ∧ text = marker ++ body

/-- Blanks and comments that end on their lines. -/
inductive Trivia : List Char → Prop where
  | nil : Trivia []
  | blank {c : Char} {text : List Char} : c ∈ [' ', '\t', '\r', '\n'] → Trivia text → Trivia (c :: text)
  | comment {comment text : List Char} : IsComment comment → Trivia text →
    Trivia (comment ++ '\n' :: text)

/-- What stands before the rest of a text.  Where nothing is left, a comment may end without a line
feed. -/
def Gap (rest gap : List Char) : Prop :=
  Trivia gap ∨ rest = [] ∧ ∃ text comment, Trivia text ∧ IsComment comment ∧ gap = text ++ comment

/-- The text starts with a blank or a comment. -/
def StartsGap : List Char → Prop
  | [] => False
  | c :: text => c ∈ [' ', '\t', '\r', '\n'] ∨ c = '#' ∨ c = '/' ∧ text.head? = some '/'

section

variable {rest gap : List Char} {c : Char}

theorem isBlank_iff : isBlank c = true ↔ c ∈ [' ', '\t', '\r', '\n'] := by
  simp [isBlank, or_assoc]

theorem Gap.blank (hc : isBlank c = true) (h : Gap rest gap) : Gap rest (c :: gap) := by
  rcases h with h | ⟨hrest, text, comment, htext, hcomment, rfl⟩
  · exact .inl (.blank (isBlank_iff.1 hc) h)
  · exact .inr ⟨hrest, c :: text, comment, .blank (isBlank_iff.1 hc) htext, hcomment, rfl⟩

theorem Gap.comment {comment : List Char} (hcomment : IsComment comment) (h : Gap rest gap) :
    Gap rest (comment ++ '\n' :: gap) := by
  rcases h with h | ⟨hrest, text, last, htext, hlast, rfl⟩
  · exact .inl (.comment hcomment h)
  · refine .inr ⟨hrest, comment ++ '\n' :: text, last, .comment hcomment htext, hlast, ?_⟩
    rw [List.append_assoc, List.cons_append]

theorem Gap.openComment (hcomment : IsComment gap) : Gap [] gap :=
  .inr ⟨rfl, [], gap, .nil, hcomment, rfl⟩

/-- What stands before the rest of a text that starts within a comment. -/
def CommentGap (rest gap : List Char) : Prop :=
  (∃ body behind, '\n' ∉ body ∧ Gap rest behind ∧ gap = body ++ '\n' :: behind) ∨
    rest = [] ∧ '\n' ∉ gap

theorem CommentGap.cons (hc : c ≠ '\n') (h : CommentGap rest gap) : CommentGap rest (c :: gap) := by
  rcases h with ⟨body, behind, hbody, hbehind, rfl⟩ | ⟨hrest, hgap⟩
  · exact .inl ⟨c :: body, behind, List.not_mem_cons_of_ne_of_not_mem hc.symm hbody, hbehind, rfl⟩
  · exact .inr ⟨hrest, List.not_mem_cons_of_ne_of_not_mem hc.symm hgap⟩

/-- A number sign starts a comment. -/
theorem CommentGap.numberSign (h : CommentGap rest gap) : Gap rest ('#' :: gap) := by
  rcases h with ⟨body, behind, hbody, hbehind, rfl⟩ | ⟨rfl, hgap⟩
  · exact hbehind.comment ⟨['#'], body, .inl rfl, hbody, rfl⟩
  · exact .openComment ⟨['#'], gap, .inl rfl, hgap, rfl⟩

/-- Two slashes start a comment. -/
theorem CommentGap.slashes (h : CommentGap rest gap) (hslash : (gap ++ rest).head? = some '/') :
    Gap rest ('/' :: gap) := by
  rcases h with ⟨body, behind, hbody, hbehind, rfl⟩ | ⟨rfl, hgap⟩
  · cases body with
    | nil => exact absurd (Option.some.inj hslash) (by decide)
    | cons c body =>
      obtain rfl : c = '/' := Option.some.inj hslash
      exact hbehind.comment ⟨['/', '/'], body, .inr rfl, List.not_mem_of_not_mem_cons hbody, rfl⟩
  · cases gap with
    | nil => cases hslash
    | cons c body =>
      obtain rfl : c = '/' := Option.some.inj hslash
      exact .openComment ⟨['/', '/'], body, .inr rfl, List.not_mem_of_not_mem_cons hgap, rfl⟩

end

/-- **What is skipped** are blanks and comments, or what is left of a comment and then blanks and
comments. -/
theorem gap_spanTrivia (inComment : Bool) (input : List Char) :
    (inComment = false → Gap (spanTrivia inComment input).2 (spanTrivia inComment input).1) ∧
      (inComment = true → CommentGap (spanTrivia inComment input).2 (spanTrivia inComment input).1) := by
  fun_induction spanTrivia inComment input with
  | case1 => exact ⟨fun _ => .inl .nil, fun _ => .inr ⟨rfl, List.not_mem_nil⟩⟩
  | case2 c cs gap rest hspan ih =>
    refine ⟨fun h => (by cases h), fun _ => ?_⟩
    rw [hspan] at ih
    by_cases hc : c = '\n'
    · subst hc
      exact .inl ⟨[], gap, List.not_mem_nil, ih.1 (by decide), rfl⟩
    · exact (ih.2 (by simpa using hc)).cons hc
  | case3 c cs hblank gap rest hspan ih =>
    rw [hspan] at ih
    exact ⟨fun _ => (ih.1 rfl).blank hblank, fun h => (by cases h)⟩
  | case4 c cs hblank hstarts gap rest hspan ih =>
    refine ⟨fun _ => ?_, fun h => (by cases h)⟩
    have happend := spanTrivia_append true cs
    rw [hspan] at ih happend
    simp only [Bool.or_eq_true, Bool.and_eq_true, decide_eq_true_eq, beq_iff_eq] at hstarts
    rcases hstarts with rfl | ⟨rfl, hslash⟩
    · exact (ih.2 rfl).numberSign
    · exact (ih.2 rfl).slashes (happend ▸ hslash)
  | case5 => exact ⟨fun _ => .inl .nil, fun h => (by cases h)⟩

/-- **As much as possible is skipped.** -/
theorem not_startsGap_spanTrivia (inComment : Bool) (input : List Char) :
    ¬ StartsGap (spanTrivia inComment input).2 := by
  fun_induction spanTrivia inComment input with
  | case1 => exact id
  | case2 c cs gap rest hspan ih => rwa [hspan] at ih
  | case3 c cs hblank gap rest hspan ih => rwa [hspan] at ih
  | case4 c cs hblank hstarts gap rest hspan ih => rwa [hspan] at ih
  | case5 c cs hblank hstarts =>
    simp only [Bool.or_eq_true, Bool.and_eq_true, decide_eq_true_eq, beq_iff_eq] at hstarts
    rintro (hmem | hmarker)
    · exact hblank (isBlank_iff.2 hmem)
    · exact hstarts hmarker

/-! ### Gaps are skipped -/

section

variable {gap rest text comment body : List Char}

theorem Trivia.append {other : List Char} (h : Trivia gap) (hother : Trivia other) :
    Trivia (gap ++ other) := by
  induction h with
  | nil => exact hother
  | blank hc _ ih => exact .blank hc ih
  | comment hcomment _ ih =>
    rw [List.append_assoc]
    exact .comment hcomment ih

theorem Trivia.append_gap {other : List Char} (h : Trivia gap) (hother : Gap rest other) :
    Gap rest (gap ++ other) := by
  rcases hother with hother | ⟨hrest, text, comment, htext, hcomment, rfl⟩
  · exact .inl (h.append hother)
  · exact .inr ⟨hrest, gap ++ text, comment, h.append htext, hcomment, (List.append_assoc _ _ _).symm⟩

/-- Where no gap starts nothing is skipped. -/
theorem spanTrivia_of_not_startsGap (h : ¬StartsGap rest) : spanTrivia false rest = ([], rest) := by
  cases rest with
  | nil => rfl
  | cons c rest =>
    have hblank : ¬isBlank c = true := fun hblank => h (.inl (isBlank_iff.1 hblank))
    have hmarker : ¬(c = '#' || c = '/' && rest.head? == some '/') = true := by
      simp only [Bool.or_eq_true, Bool.and_eq_true, decide_eq_true_eq, beq_iff_eq]
      exact fun hmarker => h (.inr hmarker)
    rw [spanTrivia, if_neg hblank, if_neg hmarker]

/-- A comment goes on up to the end of its line. -/
theorem spanTrivia_onward {c : Char} (hc : c ≠ '\n') (h : spanTrivia true text = (gap, rest)) :
    spanTrivia true (c :: text) = (c :: gap, rest) := by
  have hon : (c != '\n') = true := by simpa using hc
  rw [spanTrivia, hon, h]

/-- The rest of a comment is skipped up to the end of its line. -/
theorem spanTrivia_body (hbody : '\n' ∉ body) (h : spanTrivia false text = (gap, rest)) :
    spanTrivia true (body ++ '\n' :: text) = (body ++ '\n' :: gap, rest) := by
  induction body with
  | nil =>
    have hnewline : spanTrivia ('\n' != '\n') text = (gap, rest) := h
    rw [List.nil_append, spanTrivia, hnewline]
    rfl
  | cons c body ih =>
    obtain ⟨hc, hbody⟩ := List.ne_and_not_mem_of_not_mem_cons hbody
    exact spanTrivia_onward hc.symm (ih hbody)

/-- The rest of a comment is skipped up to the end of the text. -/
theorem spanTrivia_openBody (hbody : '\n' ∉ body) : spanTrivia true body = (body, []) := by
  induction body with
  | nil => rfl
  | cons c body ih =>
    obtain ⟨hc, hbody⟩ := List.ne_and_not_mem_of_not_mem_cons hbody
    exact spanTrivia_onward hc.symm (ih hbody)

/-- A comment is skipped together with what is skipped behind its marker. -/
theorem spanTrivia_marker {marker : List Char} (hmarker : marker = ['#'] ∨ marker = ['/', '/'])
    (h : spanTrivia true text = (gap, rest)) :
    spanTrivia false (marker ++ text) = (marker ++ gap, rest) := by
  rcases hmarker with rfl | rfl
  · rw [List.singleton_append, spanTrivia, if_neg (by decide), if_pos (by rfl), h]
    rfl
  · have hslash : spanTrivia true ('/' :: text) = ('/' :: gap, rest) :=
      spanTrivia_onward (by decide) h
    rw [List.cons_append, List.singleton_append, spanTrivia, if_neg (by decide), if_pos (by rfl),
      hslash]
    rfl

/-- **Blanks and comments are skipped** together with what is skipped behind them. -/
theorem spanTrivia_append_of_trivia (hgap : Trivia gap) {skipped : List Char}
    (h : spanTrivia false text = (skipped, rest)) :
    spanTrivia false (gap ++ text) = (gap ++ skipped, rest) := by
  induction hgap with
  | nil => exact h
  | @blank c gap hc _ ih =>
    rw [List.cons_append, spanTrivia, if_pos (isBlank_iff.2 hc), ih, List.cons_append]
  | @comment comment gap hcomment _ ih =>
    obtain ⟨marker, body, hmarker, hbody, rfl⟩ := hcomment
    have hskipped := spanTrivia_marker hmarker (spanTrivia_body hbody ih)
    simpa only [List.append_assoc, List.cons_append] using hskipped

theorem spanTrivia_of_trivia (h : Trivia gap) (hrest : ¬StartsGap rest) :
    spanTrivia false (gap ++ rest) = (gap, rest) := by
  have hskipped := spanTrivia_append_of_trivia h (spanTrivia_of_not_startsGap hrest)
  rwa [List.append_nil] at hskipped

/-- **A gap** at the end of a text is skipped. -/
theorem spanTrivia_of_gap (h : Gap [] gap) : spanTrivia false gap = (gap, []) := by
  rcases h with h | ⟨-, text, comment, htext, ⟨marker, body, hmarker, hbody, rfl⟩, rfl⟩
  · have hskipped : spanTrivia false (gap ++ []) = (gap, []) := spanTrivia_of_trivia h id
    rwa [List.append_nil] at hskipped
  · exact spanTrivia_append_of_trivia htext (spanTrivia_marker hmarker (spanTrivia_openBody hbody))

end

end CallGraph
