import CallGraph.Proofs.Token.Nesting
import CallGraph.Proofs.Token.Scan

/-!
# Texts that a payload may hold

A payload is scanned for quotes and braces only, by counting.  What it holds is read by another scan, that
knows texts and comments.  Both agree on where the texts and the payloads inside it end.

* `Balanced` — the counting passes the text, whatever is open before it and whatever comes behind it;
* `Plain`, `balanced_of_plain` — a text without quotes and braces;
* `blockBody_quotedRun`, `blockBody_enclosed` — the counting inside of **a quoted text**, and of **a
  payload**;
* `balanced_lexeme` — every token that is no mistake is balanced;
* `CommentIn`, `Scanner.gaps` — what stands between the tokens;
* `Scanner.balanced` — **a text** is balanced if its comments are plain and none of its tokens is a mistake.
-/

namespace CallGraph

/-- What is found once the text has been passed. -/
def passing (text : List Char) (found : List Char × List Char) : List Char × List Char :=
  (text ++ found.1, found.2)

/-- Where no quoted text is open, the scan of a payload passes the text: it goes on behind it as if nothing
had been there. -/
def Balanced (text : List Char) : Prop :=
  ∀ opened rest, blockBody opened .outside (text ++ rest) =
    (blockBody opened .outside rest).map (passing text)

/-- There is neither a quote nor a brace in the text. -/
structure Plain (text : List Char) : Prop where
  /-- There is no quote. -/
  quote : '"' ∉ text
  /-- There is no brace that opens a payload. -/
  opening : '\x7b' ∉ text
  /-- There is no brace that closes a payload. -/
  closing : '\x7d' ∉ text

section

variable {text other cs inner rest : List Char} {c : Char} {opened : Nat} {q : Quotation}

/-! ### Plain texts -/

theorem plain_nil : Plain [] := ⟨List.not_mem_nil, List.not_mem_nil, List.not_mem_nil⟩

theorem plain_append : Plain (text ++ other) ↔ Plain text ∧ Plain other := by
  constructor
  · rintro ⟨hquote, hopening, hclosing⟩
    rw [List.mem_append, not_or] at hquote hopening hclosing
    exact ⟨⟨hquote.1, hopening.1, hclosing.1⟩, hquote.2, hopening.2, hclosing.2⟩
  · rintro ⟨h, hother⟩
    exact ⟨List.not_mem_append h.quote hother.quote, List.not_mem_append h.opening hother.opening,
      List.not_mem_append h.closing hother.closing⟩

theorem plain_cons : Plain (c :: text) ↔ Plain [c] ∧ Plain text := by
  rw [← plain_append, List.singleton_append]

/-- A text of characters among which there is neither a quote nor a brace. -/
theorem plain_of_forall {p : Char → Bool} (hp : p '"' = false ∧ p '\x7b' = false ∧ p '\x7d' = false)
    (h : ∀ c ∈ text, p c = true) : Plain text :=
  ⟨fun hmem => Bool.false_ne_true (hp.1.symm.trans (h _ hmem)),
    fun hmem => Bool.false_ne_true (hp.2.1.symm.trans (h _ hmem)),
    fun hmem => Bool.false_ne_true (hp.2.2.symm.trans (h _ hmem))⟩

theorem plain_takeWhile_isNamePart (text : List Char) : Plain (text.takeWhile isNamePart) :=
  plain_of_forall (by decide) fun _ hc => List.mem_takeWhile_imp hc

theorem plain_takeWhile_isDigit (text : List Char) : Plain (text.takeWhile Char.isDigit) :=
  plain_of_forall (by decide) fun _ hc => List.mem_takeWhile_imp hc

/-! ### Counting -/

/-- One text after the other is passed. -/
theorem map_passing (text other : List Char) (found : Option (List Char × List Char)) :
    (found.map (passing other)).map (passing text) = found.map (passing (text ++ other)) := by
  cases found with
  | none => rfl
  | some found => exact congrArg some (Prod.ext (List.append_assoc text other found.1).symm rfl)

/-- Every character but the brace that closes the payload is passed. -/
theorem blockBody_cons (h : ¬(opened = 0 ∧ q = .outside ∧ c = '\x7d')) (cs : List Char) :
    blockBody opened q (c :: cs) =
      (blockBody (q.braces opened c) (q.next c) cs).map (passing [c]) := by
  rw [blockBody, if_neg h]
  rfl

/-- Inside of a quoted text every character is passed. -/
theorem blockBody_quoted (hq : q ≠ .outside) (opened : Nat) (c : Char) (cs : List Char) :
    blockBody opened q (c :: cs) = (blockBody opened (q.next c) cs).map (passing [c]) := by
  rw [blockBody_cons fun hcloses => hq hcloses.2.1, Quotation.braces, if_pos hq]

theorem balanced_nil : Balanced [] := fun _ _ => Option.map_id'.symm

theorem Balanced.append (h : Balanced text) (hother : Balanced other) : Balanced (text ++ other) := by
  intro opened rest
  rw [List.append_assoc, h, hother, map_passing]

/-- **A text without quotes and braces** is balanced. -/
theorem balanced_of_plain (h : Plain text) : Balanced text := by
  induction text with
  | nil => exact balanced_nil
  | cons c text ih =>
    obtain ⟨hc, htext⟩ := plain_cons.1 h
    have hquote : c ≠ '"' := fun heq => hc.quote (heq ▸ List.mem_cons_self)
    have hopening : c ≠ '\x7b' := fun heq => hc.opening (heq ▸ List.mem_cons_self)
    have hclosing : c ≠ '\x7d' := fun heq => hc.closing (heq ▸ List.mem_cons_self)
    refine Balanced.append (show Balanced [c] from fun opened rest => ?_) (ih htext)
    have hnext : Quotation.next .outside c = .outside := if_neg hquote
    have hbraces : Quotation.braces .outside opened c = opened := by
      rw [Quotation.braces, if_neg (not_not_intro rfl), if_neg hopening, if_neg hclosing]
    rw [List.singleton_append, blockBody_cons fun hcloses => hclosing hcloses.2.2, hnext, hbraces]

/-! ### Quoted texts -/

/-- **In a quoted text** nothing is counted, up to the quote where the text ends when it is read. -/
theorem blockBody_quotedRun {input said run behind : List Char}
    (h : quotedRun input = (said, run, '"' :: behind)) (opened : Nat) (rest : List Char) :
    blockBody opened .inside (run ++ '"' :: rest) =
      (blockBody opened .outside rest).map (passing (run ++ ['"'])) := by
  fun_induction quotedRun input generalizing said run with
  | case1 => cases congrArg (fun found => found.2.2) h
  | case2 => cases congrArg (fun found => found.2.2) h
  | case3 e rest' hescape => cases congrArg (fun found => found.2.2) h
  | case4 e rest' meant hescape said' run' left hrest ih =>
    obtain ⟨rfl, hrun⟩ := Prod.mk.inj h
    obtain ⟨rfl, rfl⟩ := Prod.mk.inj hrun
    rw [hrest] at ih
    -- The escaped character is passed, whether it is a quote or not.
    rw [List.cons_append, List.cons_append, blockBody_quoted (by decide), blockBody_quoted (by decide),
      show (Quotation.next .inside '\\').next e = .inside from rfl, ih rfl, map_passing, map_passing]
    rfl
  | case5 c cs hc hstops =>
    obtain ⟨rfl, hrun⟩ := Prod.mk.inj h
    obtain ⟨rfl, -⟩ := Prod.mk.inj hrun
    rw [List.nil_append, blockBody_quoted (by decide)]
    rfl
  | case6 c cs hc hstops said' run' left hrest ih =>
    obtain ⟨rfl, hrun⟩ := Prod.mk.inj h
    obtain ⟨rfl, rfl⟩ := Prod.mk.inj hrun
    rw [hrest] at ih
    have hquote : c ≠ '"' := by
      rintro rfl
      exact hstops rfl
    have hnext : Quotation.next .inside c = .inside := by
      rw [Quotation.next, if_neg hc, if_neg hquote]
    rw [List.cons_append, blockBody_quoted (by decide), hnext, ih rfl, map_passing]
    rfl

theorem balanced_quoted (hvalid : ∀ mistake, (quoted cs).kind ≠ .invalid mistake) :
    Balanced (quoted cs).text := by
  obtain ⟨said, run, behind, hrun⟩ := exists_quotedRun hvalid
  intro opened rest
  rw [quoted_of_run hrun]
  have houtside : ¬(opened = 0 ∧ Quotation.outside = .outside ∧ '"' = '\x7d') := by
    rintro ⟨-, -, hquote⟩
    exact absurd hquote (by decide)
  rw [List.append_assoc, List.singleton_append, List.cons_append, blockBody_cons houtside,
    show Quotation.next .outside '"' = .inside from rfl,
    show Quotation.braces .outside opened '"' = opened from rfl, blockBody_quotedRun hrun, map_passing]
  rfl

/-! ### Payloads -/

/-- **In a payload** inside of another one the counting goes on as in the inner one alone, with more braces
open. -/
theorem blockBody_enclosed (h : blockBody opened q cs = some (inner, rest)) (outer : Nat)
    (other : List Char) :
    blockBody (opened + (outer + 1)) q (inner ++ '\x7d' :: other) =
      (blockBody outer .outside other).map (passing (inner ++ ['\x7d'])) := by
  induction cs generalizing opened q inner with
  | nil => cases h
  | cons c cs ih =>
    by_cases hcloses : opened = 0 ∧ q = .outside ∧ c = '\x7d'
    · rw [blockBody, if_pos hcloses] at h
      obtain ⟨rfl, -⟩ := Prod.mk.inj (Option.some.inj h)
      obtain ⟨rfl, rfl, rfl⟩ := hcloses
      have hopen : ¬(0 + (outer + 1) = 0 ∧ Quotation.outside = .outside ∧ '\x7d' = '\x7d') := by omega
      have hbraces : Quotation.braces .outside (0 + (outer + 1)) '\x7d' = outer := by
        rw [Nat.zero_add]
        rfl
      rw [List.nil_append, blockBody_cons hopen, hbraces]
      rfl
    · rw [blockBody_cons hcloses] at h
      obtain ⟨found, hbody, heq⟩ := Option.map_eq_some_iff.1 h
      obtain ⟨hinner, rfl⟩ := Prod.mk.inj heq
      obtain rfl : c :: found.1 = inner := hinner
      have hopen : ¬(opened + (outer + 1) = 0 ∧ q = .outside ∧ c = '\x7d') := by omega
      have hbraces : q.braces (opened + (outer + 1)) c = q.braces opened c + (outer + 1) := by
        have hinner := braces_eq hcloses
        have houter := braces_eq hopen
        omega
      rw [List.cons_append, blockBody_cons hopen, hbraces, ih hbody, map_passing]
      rfl

theorem balanced_block (hvalid : ∀ mistake, (block cs).kind ≠ .invalid mistake) :
    Balanced (block cs).text := by
  cases hbody : blockBody 0 .outside cs with
  | none =>
    rw [block, hbody] at hvalid
    exact absurd rfl (hvalid _)
  | some found =>
    intro opened rest
    have hopens : ¬(opened = 0 ∧ Quotation.outside = .outside ∧ '\x7b' = '\x7d') := by
      rintro ⟨-, -, hbrace⟩
      exact absurd hbrace (by decide)
    have hbraces : Quotation.braces .outside opened '\x7b' = 0 + (opened + 1) := (Nat.zero_add _).symm
    have htext : (block cs).text = '\x7b' :: found.1 ++ ['\x7d'] := by
      rw [block, hbody]
    rw [htext, List.append_assoc, List.singleton_append, List.cons_append, blockBody_cons hopens,
      hbraces, show Quotation.next .outside '\x7b' = .outside from rfl, blockBody_enclosed hbody,
      map_passing]
    rfl

/-! ### Tokens -/

theorem plain_numeral {sign : List Char} (hsign : Plain sign) (input : List Char) :
    Plain (numeral sign input).text :=
  plain_append.2 ⟨plain_append.2 ⟨hsign, plain_takeWhile_isDigit _⟩, plain_takeWhile_isNamePart _⟩

/-- No mark is a quote or a brace. -/
theorem plain_punctuation {kind : TokenKind} (h : punctuation? c = some kind) : Plain [c] := by
  refine ⟨?_, ?_, ?_⟩ <;>
  · rw [List.mem_singleton]
    rintro rfl
    cases h

theorem plain_simple (hvalid : ∀ mistake, (simple c cs).kind ≠ .invalid mistake) :
    Plain (simple c cs).text := by
  unfold simple at hvalid ⊢
  split
  case isTrue =>
    show Plain ['-', '>']
    exact ⟨by decide, by decide, by decide⟩
  case isFalse harrow =>
    rw [if_neg harrow] at hvalid
    cases hmark : punctuation? c with
    | some kind => exact plain_punctuation hmark
    | none =>
      rw [hmark] at hvalid
      dsimp only at hvalid ⊢
      by_cases hname : isNameStart c = true
      · rw [if_pos hname]
        refine plain_cons.2 ⟨?_, plain_takeWhile_isNamePart cs⟩
        exact plain_of_forall (p := isNameStart) (by decide) fun d hd => List.mem_singleton.1 hd ▸ hname
      · rw [if_neg hname] at hvalid
        exact absurd rfl (hvalid _)

/-- **Every token** that is no mistake is balanced. -/
theorem balanced_lexeme (hvalid : ∀ mistake, (lexeme c cs).kind ≠ .invalid mistake) :
    Balanced (lexeme c cs).text := by
  unfold lexeme at hvalid ⊢
  by_cases hquote : c = '"'
  · rw [if_pos hquote] at hvalid ⊢
    exact balanced_quoted hvalid
  rw [if_neg hquote] at hvalid ⊢
  by_cases hbrace : c = '\x7b'
  · rw [if_pos hbrace] at hvalid ⊢
    exact balanced_block hvalid
  rw [if_neg hbrace] at hvalid ⊢
  by_cases hdigit : c.isDigit = true
  · rw [if_pos hdigit]
    exact balanced_of_plain (plain_numeral plain_nil _)
  rw [if_neg hdigit] at hvalid ⊢
  by_cases hsign : (c = '-' && cs.head?.any Char.isDigit) = true
  · rw [if_pos hsign]
    exact balanced_of_plain (plain_numeral ⟨by decide, by decide, by decide⟩ _)
  · rw [if_neg hsign] at hvalid ⊢
    exact balanced_of_plain (plain_simple hvalid)

end

/-! ### Gaps -/

/-- The comment stands in the gap, and goes on to the end of its line there. -/
def CommentIn (gap comment : List Char) : Prop :=
  ∃ before after, gap = before ++ (comment ++ after) ∧ Trivia before ∧ IsComment comment ∧
    ∀ c, after.head? = some c → c = '\n'

section

variable {gap rest text comment : List Char}

theorem CommentIn.plain (h : CommentIn gap comment) (hgap : Plain gap) : Plain comment := by
  obtain ⟨before, after, rfl, -⟩ := h
  exact (plain_append.1 (plain_append.1 hgap).2).1

theorem CommentIn.append_left {before : List Char} (hbefore : Trivia before) (h : CommentIn gap comment) :
    CommentIn (before ++ gap) comment := by
  obtain ⟨first, after, rfl, hfirst, hrest⟩ := h
  exact ⟨before ++ first, after, (List.append_assoc _ _ _).symm, hbefore.append hfirst, hrest⟩

/-- Blanks are plain, so that blanks and comments are if the comments are. -/
theorem Trivia.plain (h : Trivia text)
    (hcomments : ∀ comment, CommentIn (text ++ rest) comment → Plain comment) : Plain text := by
  induction h with
  | nil => exact plain_nil
  | @blank c text hc _ ih =>
    have hplain : Plain [c] :=
      plain_of_forall (p := isBlank) (by decide) fun d hd => List.mem_singleton.1 hd ▸ isBlank_iff.2 hc
    refine plain_cons.2 ⟨hplain, ih fun comment hcomment => hcomments comment ?_⟩
    have hbehind : CommentIn ([c] ++ (text ++ rest)) comment := hcomment.append_left (.blank hc .nil)
    exact hbehind
  | @comment comment text hcomment _ ih =>
    have hfirst : CommentIn (comment ++ '\n' :: text ++ rest) comment := by
      refine ⟨[], '\n' :: text ++ rest, List.append_assoc _ _ _, .nil, hcomment, ?_⟩
      rintro c ⟨⟩
      rfl
    have hline : Plain ['\n'] := ⟨by decide, by decide, by decide⟩
    refine plain_append.2 ⟨hcomments comment hfirst, plain_cons.2 ⟨hline, ih fun other hother => ?_⟩⟩
    refine hcomments other ?_
    have hbehind := hother.append_left (.comment hcomment .nil : Trivia (comment ++ ['\n']))
    rwa [List.append_assoc, List.singleton_append, ← List.cons_append, ← List.append_assoc] at hbehind

/-- **A gap** with plain comments is plain. -/
theorem Gap.plain (h : Gap rest gap) (hcomments : ∀ comment, CommentIn gap comment → Plain comment) :
    Plain gap := by
  rcases h with h | ⟨-, text, comment, htext, hcomment, rfl⟩
  · have hall : ∀ comment, CommentIn (gap ++ []) comment → Plain comment := by
      rwa [List.append_nil]
    exact h.plain hall
  · refine plain_append.2 ⟨htext.plain hcomments, hcomments comment ?_⟩
    refine ⟨text, [], by rw [List.append_nil], htext, hcomment, ?_⟩
    rintro c ⟨⟩

end

namespace Scanner

/-- What the scanner skips before each token and before the end. -/
def gaps (s : Scanner) : List (List Char) :=
  (spanTrivia false s.rest).1 :: if _h : s.next.1.isEnd then [] else s.next.2.gaps
termination_by s.rest.length
decreasing_by exact s.length_rest_next (Bool.eq_false_iff.2 _h)

/-- At the end nothing is skipped. -/
theorem gaps_of_nil {s : Scanner} (h : s.rest = []) : s.gaps = [[]] := by
  have hspan : spanTrivia false s.rest = ([], []) := by
    rw [h]
    rfl
  have hend : s.next.1.isEnd = true := by
    rw [next_of_nil (congrArg Prod.snd hspan)]
    rfl
  rw [gaps, dif_pos hend, hspan]

/-- **A text** whose tokens are no mistakes and whose comments are plain is balanced. -/
theorem balanced (s : Scanner) (hvalid : ∀ token ∈ s.tokens.1, ∀ mistake, token.kind ≠ .invalid mistake)
    (hquiet : ∀ gap ∈ s.gaps, ∀ comment, CommentIn gap comment → Plain comment) :
    Balanced s.rest := by
  fun_induction tokens s with
  | case1 s h =>
    rw [gaps] at hquiet
    have hplain := ((gap_spanTrivia false s.rest).1 rfl).plain (List.forall_mem_cons.1 hquiet).1
    have happend := spanTrivia_append false s.rest
    rw [rest_of_isEnd h, List.append_nil] at happend
    rw [← happend]
    exact balanced_of_plain hplain
  | case2 s h rest last hscanned ih =>
    rw [gaps, dif_neg h] at hquiet
    obtain ⟨hfirst, hothers⟩ := List.forall_mem_cons.1 hquiet
    obtain ⟨htoken, htokens⟩ := List.forall_mem_cons.1 hvalid
    have hplain := ((gap_spanTrivia false s.rest).1 rfl).plain hfirst
    have happend := spanTrivia_append false s.rest
    obtain ⟨c, cs, hrest⟩ := exists_rest_of_not_isEnd h
    have hbehind := ih (by rwa [hscanned]) hothers
    rw [next_of_cons hrest] at htoken hbehind
    rw [← happend, hrest, ← Lexeme.text_append_rest c cs]
    exact (balanced_of_plain hplain).append ((balanced_lexeme htoken).append hbehind)

end Scanner

end CallGraph
