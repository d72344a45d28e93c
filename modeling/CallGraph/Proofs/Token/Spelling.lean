import CallGraph.Proofs.Token.Locality
import CallGraph.Proofs.Token.Tiling

/-!
# How quoted texts are spelled

Between quotes a character stands for itself, or is spelled by a backslash and another character.

* `Spells` — a spelling and the characters that it stands for; `exists_spelling` — all characters can be
  spelled;
* `quotedRun_of_spells`, `spells_quotedRun` — a run of quoted characters is read as what it spells, and
  whatever is read is spelled by the run;
* `newline_not_mem_quoted` — a quoted text stays on its line, even if it is a mistake;
* `strings_decoded` — **a spelling between quotes** is read as one token with the characters that it
  stands for, and every token of a text is such a spelling.
-/

namespace CallGraph

/-- What stands behind the backslash of an escape, and the character that is meant. -/
def escapes : List (Char × Char) :=
  [('n', '\n'), ('t', '\t'), ('r', '\r'), ('"', '"'), ('\\', '\\')]

/-- The first text spells the second one character by character.  All but quotes, backslashes and line
feeds may stand for themselves. -/
inductive Spells : List Char → List Char → Prop where
  | nil : Spells [] []
  | raw {c : Char} {spelling said : List Char} : c ∉ ['"', '\\', '\n'] → Spells spelling said →
    Spells (c :: spelling) (c :: said)
  | escape {mark c : Char} {spelling said : List Char} : (mark, c) ∈ escapes → Spells spelling said →
    Spells ('\\' :: mark :: spelling) (c :: said)

section

variable {spelling said rest input : List Char} {c mark : Char}

theorem exists_spelling (said : List Char) : ∃ spelling, Spells spelling said := by
  induction said with
  | nil => exact ⟨[], .nil⟩
  | cons c said ih =>
    obtain ⟨spelling, hspelling⟩ := ih
    by_cases hc : c ∈ ['"', '\\', '\n']
    · have hescape : ∃ mark, (mark, c) ∈ escapes := by
        simp only [List.mem_cons, List.not_mem_nil, or_false] at hc
        rcases hc with rfl | rfl | rfl
        · exact ⟨'"', by decide⟩
        · exact ⟨'\\', by decide⟩
        · exact ⟨'n', by decide⟩
      obtain ⟨mark, hmark⟩ := hescape
      exact ⟨_, hspelling.escape hmark⟩
    · exact ⟨_, hspelling.raw hc⟩

/-- The escapes are those that are read. -/
theorem unescape?_eq_some_iff : unescape? mark = some c ↔ (mark, c) ∈ escapes := by
  unfold unescape? escapes
  split <;> simp_all [eq_comm]

/-! ### Runs of quoted characters -/

/-- **What a run spells** is read up to the quote that closes it. -/
theorem quotedRun_of_spells (h : Spells spelling said) (rest : List Char) :
    quotedRun (spelling ++ '"' :: rest) = (said, spelling, '"' :: rest) := by
  induction h with
  | nil => exact quotedRun_quote rest
  | @raw c spelling said hc _ ih =>
    simp only [List.mem_cons, List.not_mem_nil, or_false, not_or] at hc
    obtain ⟨hquote, hbackslash, hnewline⟩ := hc
    rw [List.cons_append, quotedRun_plain hbackslash (by simp [hquote, hnewline]), ih]
  | escape hmark _ ih =>
    rw [List.cons_append, List.cons_append, quotedRun, if_pos rfl]
    simp only [unescape?_eq_some_iff.2 hmark, ih]

/-- **Whatever is read** is spelled by the run. -/
theorem spells_quotedRun (input : List Char) : Spells (quotedRun input).2.1 (quotedRun input).1 := by
  fun_induction quotedRun input with
  | case1 => exact .nil
  | case2 => exact .nil
  | case3 => exact .nil
  | case4 e rest meant hescape said run left hrest ih =>
    rw [hrest] at ih
    exact .escape (unescape?_eq_some_iff.1 hescape) ih
  | case5 => exact .nil
  | case6 c cs hc hstops said run left hrest ih =>
    rw [hrest] at ih
    refine .raw ?_ ih
    simp only [Bool.or_eq_true, decide_eq_true_eq, not_or] at hstops
    simp [hc, hstops]

/-! ### Lines -/

theorem Spells.newline_not_mem (h : Spells spelling said) : '\n' ∉ spelling := by
  induction h with
  | nil => exact List.not_mem_nil
  | raw hc _ ih =>
    refine List.not_mem_cons_of_ne_of_not_mem ?_ ih
    rintro rfl
    exact hc (by decide)
  | escape hmark _ ih =>
    have hmarks : ∀ e ∈ escapes, '\n' ≠ e.1 := by decide
    exact List.not_mem_cons_of_ne_of_not_mem (by decide)
      (List.not_mem_cons_of_ne_of_not_mem (hmarks _ hmark) ih)

/-- What is skipped behind an invalid escape ends with the line. -/
theorem newline_not_mem_quotedTail (escaped : Bool) (input : List Char) :
    '\n' ∉ (quotedTail escaped input).1 := by
  fun_induction quotedTail escaped input with
  | case1 => exact List.not_mem_nil
  | case2 => exact List.not_mem_nil
  | case3 escaped c cs hline hcloses =>
    simp only [Bool.and_eq_true, decide_eq_true_eq] at hcloses
    rw [List.mem_singleton, hcloses.1]
    decide
  | case4 escaped c cs hline hcloses taken rest htail ih =>
    rw [htail] at ih
    exact List.not_mem_cons_of_ne_of_not_mem (Ne.symm hline) ih

/-- **A quoted text stays on its line**, whether it is closed or not. -/
theorem newline_not_mem_quoted (input : List Char) : '\n' ∉ (quoted input).text := by
  have hrun := (spells_quotedRun input).newline_not_mem
  unfold quoted
  generalize quotedRun input = found at hrun
  obtain ⟨said, run, rest⟩ := found
  dsimp only at hrun ⊢
  have hopened : '\n' ∉ '"' :: run := List.not_mem_cons_of_ne_of_not_mem (by decide) hrun
  split
  · exact List.not_mem_append hopened (by decide)
  · split
    next c after =>
      split
      · exact List.not_mem_append hopened (by decide)
      next hc =>
        have htail := newline_not_mem_quotedTail false after
        refine List.not_mem_append hopened ?_
        exact List.not_mem_cons_of_ne_of_not_mem (by decide)
          (List.not_mem_cons_of_ne_of_not_mem (Ne.symm hc) htail)
    · exact List.not_mem_append hopened (by decide)
  · exact hopened

/-! ### Tokens -/

namespace Lexeme

variable {cs : List Char} {content : String}

theorem kind_block_ne_text (cs : List Char) : (block cs).kind ≠ .text content := by
  unfold block
  split <;> exact TokenKind.noConfusion

theorem kind_numeral_ne_text (sign input : List Char) : (numeral sign input).kind ≠ .text content := by
  rcases kind_numeral_cases sign input with ⟨n, hkind⟩ | hkind <;> rw [hkind]
  · exact TokenKind.noConfusion
  · exact TokenKind.noConfusion

theorem kind_simple_ne_text (c : Char) (cs : List Char) : (simple c cs).kind ≠ .text content := by
  unfold simple
  split
  · exact TokenKind.noConfusion
  · unfold punctuation?
    split
    next kind hkind => split at hkind <;> cases hkind <;> exact TokenKind.noConfusion
    · split <;> exact TokenKind.noConfusion

/-- Only a quote begins a quoted text. -/
theorem eq_quoted_of_text (h : (lexeme c cs).kind = .text content) : lexeme c cs = quoted cs := by
  unfold lexeme at h ⊢
  split at h
  case isTrue hquote => rw [if_pos hquote]
  split at h
  · exact absurd h (kind_block_ne_text cs)
  split at h
  · exact absurd h (kind_numeral_ne_text _ _)
  split at h
  · exact absurd h (kind_numeral_ne_text _ _)
  · exact absurd h (kind_simple_ne_text c cs)

/-- A lexeme that starts with a quote is a quoted text. -/
theorem eq_quoted (h : (lexeme c cs).text.head? = some '"') : lexeme c cs = quoted cs := by
  rw [head?_text] at h
  obtain rfl := Option.some.inj h
  rfl

/-- **A quoted text that is no mistake** is spelled by the token. -/
theorem exists_spelling_of_text (h : (lexeme c cs).kind = .text content) :
    ∃ spelling, Spells spelling content.toList ∧ (lexeme c cs).text = '"' :: spelling ++ ['"'] := by
  have hquoted := eq_quoted_of_text h
  rw [hquoted] at h ⊢
  have hvalid : ∀ mistake, (quoted cs).kind ≠ .invalid mistake := by
    intro mistake hmistake
    rw [h] at hmistake
    cases hmistake
  obtain ⟨said, run, behind, hrun⟩ := exists_quotedRun hvalid
  have hspells := spells_quotedRun cs
  rw [hrun] at hspells
  rw [quoted_of_run hrun] at h ⊢
  refine ⟨run, ?_, rfl⟩
  rw [← TokenKind.text.inj h, String.toList_ofList]
  exact hspells

end Lexeme

end

namespace Scanner

/-- **A spelling between quotes** is the next token behind blanks and comments, whatever follows. -/
theorem next_of_spells {s : Scanner} {gap spelling said rest : List Char} (hgap : Trivia gap)
    (h : Spells spelling said) (hrest : s.rest = gap ++ ('"' :: spelling ++ '"' :: rest)) :
    s.next = (⟨.text (String.ofList said), String.ofList ('"' :: spelling ++ ['"']),
        .ofText (s.position.advance gap) ('"' :: spelling ++ ['"'])⟩,
      ⟨s.source, rest, (s.position.advance gap).advance ('"' :: spelling ++ ['"'])⟩) := by
  have hstarts : ¬StartsGap ('"' :: spelling ++ '"' :: rest) := by
    rintro (hblank | hsign | ⟨hslash, -⟩)
    · exact absurd hblank (by decide)
    · exact absurd hsign (by decide)
    · exact absurd hslash (by decide)
  have hspan := spanTrivia_of_trivia hgap hstarts
  rw [← hrest] at hspan
  have hcons : (spanTrivia false s.rest).2 = '"' :: (spelling ++ '"' :: rest) := by
    rw [hspan]
    rfl
  have hlexeme : lexeme '"' (spelling ++ '"' :: rest) =
      ⟨.text (String.ofList said), '"' :: spelling ++ ['"'], rest⟩ :=
    quoted_of_run (quotedRun_of_spells h rest)
  rw [next_of_cons hcons, hlexeme, hspan]

end Scanner

/-- **Quoted texts are read exactly.**

* All characters can be spelled.
* A spelling between quotes is the next token, whatever stands behind it and whatever blanks and comments
  before it: the token covers exactly the quotes and what is between them, it carries exactly the characters
  that are spelled, and reading goes on right behind it.
* Each token with a quoted text, in every source, is such a spelling of its characters between quotes.
* No token that starts with a quote has a line feed in it, even if it is a mistake. -/
theorem strings_decoded :
    (∀ said, ∃ spelling, Spells spelling said) ∧
    (∀ (s : Scanner) (gap spelling said rest : List Char), Trivia gap → Spells spelling said →
      s.rest = gap ++ ('"' :: spelling ++ '"' :: rest) →
      s.next = (⟨.text (String.ofList said), String.ofList ('"' :: spelling ++ ['"']),
          .ofText (s.position.advance gap) ('"' :: spelling ++ ['"'])⟩,
        ⟨s.source, rest, (s.position.advance gap).advance ('"' :: spelling ++ ['"'])⟩)) ∧
    ∀ (origin : Location) (source : String), ∀ token ∈ (Scanner.startingAt origin source).tokens.1,
      (∀ content, token.kind = .text content → ∃ spelling, Spells spelling content.toList ∧
        token.text.toList = '"' :: spelling ++ ['"']) ∧
      (token.text.toList.head? = some '"' → '\n' ∉ token.text.toList) := by
  refine ⟨exists_spelling, fun s gap spelling said rest hgap h hrest => Scanner.next_of_spells hgap h hrest,
    fun origin source token htoken => ?_⟩
  obtain ⟨c, cs, hkind, htext⟩ := (Scanner.startingAt origin source).exists_lexeme token htoken
  rw [hkind, htext]
  refine ⟨fun content hcontent => Lexeme.exists_spelling_of_text hcontent, fun hquote => ?_⟩
  rw [Lexeme.eq_quoted hquote]
  exact newline_not_mem_quoted cs

end CallGraph
