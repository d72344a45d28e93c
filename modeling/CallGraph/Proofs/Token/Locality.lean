import Mathlib.Data.List.TakeWhile
import CallGraph.Proofs.Token.Layout
import CallGraph.Proofs.Token.Trivia

/-!
# A token and what follows it

Where a token ends is told by the token itself, and for names and numbers also by the next character.
So the same token is cut whatever follows it, as long as that does not go on with a name or a number.

* `Stops`, `span_of_stops` — where a run of characters ends;
* `Bounds` — what may follow a token instead;
* `quoted_replace`, `block_replace`, `numeral_replace`, `simple_replace` — each recogniser cuts the
  same;
* `lexeme_replace` — so does the scanner;
* `Cuts`, `Cuts.replace` — and it still skips nothing before the token.
-/

namespace CallGraph

/-! ### Runs of characters -/

/-- A run of such characters does not go on into the text. -/
def Stops (p : Char → Bool) (text : List Char) : Prop := ∀ c, text.head? = some c → p c = false

section

variable {p : Char → Bool} {text behind : List Char}

theorem stops_nil (p : Char → Bool) : Stops p [] := by
  intro c hc
  cases hc

/-- A run ends where the text behind it does not go on with it. -/
theorem span_of_stops (htext : ∀ x ∈ text, p x = true) (hbehind : Stops p behind) :
    (text ++ behind).takeWhile p = text ∧ (text ++ behind).dropWhile p = behind := by
  rw [List.takeWhile_append_of_pos htext, List.dropWhile_append_of_pos htext]
  cases behind with
  | nil => exact ⟨List.append_nil text, rfl⟩
  | cons c behind =>
    have hstops : ¬p c = true := Bool.eq_false_iff.1 (hbehind c rfl)
    rw [List.takeWhile_cons_of_neg hstops, List.dropWhile_cons_of_neg hstops]
    exact ⟨List.append_nil text, rfl⟩

/-- Behind a run the text does not go on with it. -/
theorem stops_of_dropWhile (h : text.dropWhile p = behind) : Stops p behind := by
  intro x hx
  rw [← h] at hx
  have hfirst := List.head?_dropWhile_not p text
  rw [hx] at hfirst
  exact hfirst

end

/-! ### What may follow a token -/

/-- The text `other` may stand behind a token in place of `behind`: it does not start with a character
of a name, unless `behind` starts with the same one. -/
def Bounds (behind other : List Char) : Prop :=
  ∀ x, other.head? = some x → isNamePart x = true → behind.head? = some x

section

variable {text behind other : List Char}

/-- What goes on with no name may stand behind every token. -/
theorem bounds_of_stops (h : Stops isNamePart other) : Bounds behind other := by
  intro x hx hpart
  rw [h x hx] at hpart
  cases hpart

/-- What starts with the same text may stand behind every token. -/
theorem bounds_append (htext : text ≠ []) : Bounds (text ++ behind) (text ++ other) := by
  intro x hx _
  obtain ⟨c, text, rfl⟩ := List.exists_cons_of_ne_nil htext
  exact hx

/-- Where no name goes on in one text, none goes on in the other. -/
theorem Bounds.stops (h : Bounds behind other) (hbehind : Stops isNamePart behind) :
    Stops isNamePart other := by
  intro x hx
  cases hpart : isNamePart x with
  | false => rfl
  | true => exact (hbehind x (h x hx hpart)).symm.trans hpart |>.symm

end

/-- A name goes on with a digit or with what starts a name. -/
theorem isNamePart_eq (c : Char) : isNamePart c = (c.isDigit || isNameStart c) := by
  simp only [isNamePart, isNameStart, Char.isAlphanum]
  cases c.isAlpha <;> cases c.isDigit <;> rfl

theorem isNamePart_of_isDigit {c : Char} (h : c.isDigit = true) : isNamePart c = true := by
  rw [isNamePart_eq, h, Bool.true_or]

theorem isNamePart_of_isNameStart {c : Char} (h : isNameStart c = true) : isNamePart c = true := by
  rw [isNamePart_eq, h, Bool.or_true]

/-- Where no name goes on, no digit follows. -/
theorem stops_isDigit {text : List Char} (h : Stops isNamePart text) : Stops Char.isDigit text := by
  intro x hx
  cases hdigit : x.isDigit with
  | false => rfl
  | true => exact (isNamePart_of_isDigit hdigit).symm.trans (h x hx)

/-! ### Recognisers -/

section

variable {kind : TokenKind} {text behind other : List Char}

theorem quotedRun_quote (rest : List Char) : quotedRun ('"' :: rest) = ([], [], '"' :: rest) := by
  rw [quotedRun.eq_def ('"' :: rest)]
  simp

theorem quotedRun_plain {c : Char} (hc : c ≠ '\\') (hstops : ¬(c = '"' || c = '\n') = true)
    (rest : List Char) :
    quotedRun (c :: rest) =
      (c :: (quotedRun rest).1, c :: (quotedRun rest).2.1, (quotedRun rest).2.2) := by
  rw [quotedRun.eq_def (c :: rest)]
  simp only [hc, hstops, if_false]
  rfl

/-- The run of a quoted text up to its closing quote. -/
theorem quotedRun_replace {input said run : List Char}
    (h : quotedRun input = (said, run, '"' :: behind)) (other : List Char) :
    quotedRun (run ++ '"' :: other) = (said, run, '"' :: other) := by
  fun_induction quotedRun input generalizing said run with
  | case1 => cases congrArg (fun found => found.2.2) h
  | case2 => cases congrArg (fun found => found.2.2) h
  | case3 e rest hescape => cases congrArg (fun found => found.2.2) h
  | case4 e rest meant hescape said' run' left hrest ih =>
    obtain ⟨rfl, hrun⟩ := Prod.mk.inj h
    obtain ⟨rfl, rfl⟩ := Prod.mk.inj hrun
    rw [hrest] at ih
    have hbehind := ih rfl
    rw [List.cons_append, List.cons_append, quotedRun, if_pos rfl]
    simp only [hescape, hbehind]
  | case5 c cs hc hstops =>
    obtain ⟨rfl, hrun⟩ := Prod.mk.inj h
    obtain ⟨rfl, hbehind⟩ := Prod.mk.inj hrun
    exact quotedRun_quote other
  | case6 c cs hc hstops said' run' left hrest ih =>
    obtain ⟨rfl, hrun⟩ := Prod.mk.inj h
    obtain ⟨rfl, rfl⟩ := Prod.mk.inj hrun
    rw [hrest] at ih
    have hbehind := ih rfl
    rw [List.cons_append, quotedRun_plain hc hstops, hbehind]

/-- A run that a quote closes makes up the text. -/
theorem quoted_of_run {input said run : List Char} (h : quotedRun input = (said, run, '"' :: behind)) :
    quoted input = ⟨.text (String.ofList said), '"' :: run ++ ['"'], behind⟩ := by
  simp only [quoted, h]

/-- A quoted text that is no mistake is a run that a quote closes. -/
theorem exists_quotedRun {input : List Char}
    (hvalid : ∀ mistake, (quoted input).kind ≠ .invalid mistake) :
    ∃ said run behind, quotedRun input = (said, run, '"' :: behind) := by
  rcases hrun : quotedRun input with ⟨said, run, rest⟩
  unfold quoted at hvalid
  rw [hrun] at hvalid
  dsimp only at hvalid
  split at hvalid
  · exact ⟨said, run, _, rfl⟩
  · split at hvalid
    · split at hvalid
      · exact absurd rfl (hvalid _)
      · exact absurd rfl (hvalid _)
    · exact absurd rfl (hvalid _)
  · exact absurd rfl (hvalid _)

/-- **A quoted text** ends with its closing quote. -/
theorem quoted_replace (h : quoted (text ++ behind) = ⟨kind, '"' :: text, behind⟩)
    (hvalid : ∀ mistake, kind ≠ .invalid mistake) (other : List Char) :
    quoted (text ++ other) = ⟨kind, '"' :: text, other⟩ := by
  have hclosed : ∀ mistake, (quoted (text ++ behind)).kind ≠ .invalid mistake := by
    rwa [h]
  obtain ⟨said, run, rest, hrun⟩ := exists_quotedRun hclosed
  rw [quoted_of_run hrun] at h
  obtain ⟨rfl, htext, rfl⟩ := Lexeme.mk.inj h
  obtain rfl : run ++ ['"'] = text := (List.cons.inj htext).2
  refine quoted_of_run ?_
  rw [List.append_assoc]
  exact quotedRun_replace hrun other

theorem blockBody_replace {opened : Nat} {q : Quotation} {input inner rest : List Char}
    (h : blockBody opened q input = some (inner, rest)) (other : List Char) :
    blockBody opened q (inner ++ '\x7d' :: other) = some (inner, other) := by
  induction input generalizing opened q inner with
  | nil => cases h
  | cons c input ih =>
    rw [blockBody] at h
    split at h
    case isTrue hcloses =>
      obtain ⟨rfl, -⟩ := Prod.mk.inj (Option.some.inj h)
      rw [List.nil_append, blockBody, if_pos ⟨hcloses.1, hcloses.2.1, rfl⟩]
    case isFalse hcloses =>
      obtain ⟨⟨inner', rest'⟩, hbody, heq⟩ := Option.map_eq_some_iff.1 h
      obtain ⟨rfl, rfl⟩ := Prod.mk.inj heq
      rw [List.cons_append, blockBody, if_neg hcloses, ih hbody]
      rfl

/-- **A payload** ends with the brace that closes it. -/
theorem block_replace (h : block (text ++ behind) = ⟨kind, '\x7b' :: text, behind⟩)
    (hvalid : ∀ mistake, kind ≠ .invalid mistake) (other : List Char) :
    block (text ++ other) = ⟨kind, '\x7b' :: text, other⟩ := by
  cases hbody : blockBody 0 .outside (text ++ behind) with
  | none =>
    rw [block, hbody] at h
    exact absurd (congrArg Lexeme.kind h).symm (hvalid _)
  | some found =>
    obtain ⟨inner, rest⟩ := found
    rw [block, hbody] at h
    obtain ⟨rfl, htext, rfl⟩ := Lexeme.mk.inj h
    obtain rfl : inner ++ ['\x7d'] = text := (List.cons.inj htext).2
    have hother := blockBody_replace hbody other
    rw [List.append_cons] at hother
    simp only [block, hother, List.cons_append]

/-- The numeral of digits, behind which there is no digit. -/
theorem numeral_of_digits {sign digits : List Char} (hdigits : ∀ x ∈ digits, x.isDigit = true)
    (hstops : Stops Char.isDigit behind) :
    numeral sign (digits ++ behind) =
      ⟨if (behind.takeWhile isNamePart).isEmpty &&
          fitsSigned64 (if sign.isEmpty then (digitsValue digits : Int) else -(digitsValue digits : Int))
        then .number (if sign.isEmpty then (digitsValue digits : Int) else -(digitsValue digits : Int))
        else .invalid .malformedNumber,
        sign ++ digits ++ behind.takeWhile isNamePart, behind.dropWhile isNamePart⟩ := by
  obtain ⟨htake, hdrop⟩ := span_of_stops hdigits hstops
  unfold numeral
  simp only [htake, hdrop]

/-- The numeral of digits that no name follows. -/
theorem numeral_of_stops {sign digits : List Char} (hdigits : ∀ x ∈ digits, x.isDigit = true)
    (hstops : Stops isNamePart behind) :
    numeral sign (digits ++ behind) =
      ⟨if fitsSigned64 (if sign.isEmpty then (digitsValue digits : Int) else -(digitsValue digits : Int))
        then .number (if sign.isEmpty then (digitsValue digits : Int) else -(digitsValue digits : Int))
        else .invalid .malformedNumber, sign ++ digits, behind⟩ := by
  obtain ⟨htail, hrest⟩ := span_of_stops (List.forall_mem_nil _) hstops
  rw [List.nil_append] at htail hrest
  simp only [numeral_of_digits hdigits (stops_isDigit hstops), htail, hrest, List.isEmpty_nil, Bool.true_and,
    List.append_nil]

/-- **A number** ends where no digit and no name goes on. -/
theorem numeral_replace {sign : List Char}
    (h : numeral sign (text ++ behind) = ⟨kind, sign ++ text, behind⟩)
    (hvalid : ∀ mistake, kind ≠ .invalid mistake) (hother : Bounds behind other) :
    numeral sign (text ++ other) = ⟨kind, sign ++ text, other⟩ := by
  obtain ⟨hkind, htext, hbehind⟩ := Lexeme.mk.inj h
  -- Nothing but digits is taken, since otherwise the number is malformed.
  have htail : ((text ++ behind).dropWhile Char.isDigit).takeWhile isNamePart = [] := by
    cases htail : ((text ++ behind).dropWhile Char.isDigit).takeWhile isNamePart with
    | nil => rfl
    | cons x tail =>
      rw [htail] at hkind
      exact absurd hkind.symm (hvalid .malformedNumber)
  have hdigits : (text ++ behind).takeWhile Char.isDigit = text := by
    rw [htail, List.append_nil] at htext
    exact List.append_cancel_left htext
  have hall : ∀ x ∈ text, x.isDigit = true := by
    intro x hx
    rw [← hdigits] at hx
    exact List.mem_takeWhile_imp hx
  have hstops := stops_of_dropWhile hbehind
  rw [numeral_of_stops hall hstops] at h
  rw [numeral_of_stops hall (hother.stops hstops)]
  obtain ⟨hkind, -, -⟩ := Lexeme.mk.inj h
  rw [hkind]

/-- **A name** ends where no name goes on, and a mark ends by itself. -/
theorem simple_replace {c : Char} (h : simple c (text ++ behind) = ⟨kind, c :: text, behind⟩)
    (hvalid : ∀ mistake, kind ≠ .invalid mistake) (hother : Bounds behind other) :
    simple c (text ++ other) = ⟨kind, c :: text, other⟩ := by
  unfold simple at h ⊢
  by_cases harrow : (c = '-' && (text ++ behind).head? == some '>') = true
  · rw [if_pos harrow] at h
    obtain ⟨rfl, htext, -⟩ := Lexeme.mk.inj h
    obtain ⟨rfl, rfl⟩ := List.cons.inj htext
    rfl
  rw [if_neg harrow] at h
  -- No other token starts with a minus sign.
  have hsign : c ≠ '-' := by
    rintro rfl
    exact absurd (congrArg Lexeme.kind h).symm (hvalid _)
  rw [if_neg (by simp [hsign])]
  cases hmark : punctuation? c with
  | some mark =>
    rw [hmark] at h
    obtain ⟨rfl, htext, -⟩ := Lexeme.mk.inj h
    obtain rfl := (List.cons.inj htext).2
    rfl
  | none =>
    rw [hmark] at h
    dsimp only at h ⊢
    by_cases hname : isNameStart c = true
    · rw [if_pos hname] at h ⊢
      obtain ⟨rfl, htext, hbehind⟩ := Lexeme.mk.inj h
      have hname : (text ++ behind).takeWhile isNamePart = text := (List.cons.inj htext).2
      have hall : ∀ x ∈ text, isNamePart x = true := by
        intro x hx
        rw [← hname] at hx
        exact List.mem_takeWhile_imp hx
      obtain ⟨htake, hdrop⟩ := span_of_stops hall (hother.stops (stops_of_dropWhile hbehind))
      rw [htake, hdrop, hname]
    · rw [if_neg hname] at h
      exact absurd (congrArg Lexeme.kind h).symm (hvalid _)

/-- No token is a minus sign alone. -/
theorem ne_nil_of_minus (h : lexeme '-' (text ++ behind) = ⟨kind, '-' :: text, behind⟩)
    (hvalid : ∀ mistake, kind ≠ .invalid mistake) : text ≠ [] := by
  rintro rfl
  have hlexeme : lexeme '-' behind =
      if behind.head?.any Char.isDigit then numeral ['-'] behind else simple '-' behind := rfl
  rw [List.nil_append, hlexeme] at h
  split at h
  · rename_i hdigit
    cases behind with
    | nil => cases hdigit
    | cons x behind =>
      -- The digit would be taken.
      have hx : x.isDigit = true := hdigit
      have htext := congrArg Lexeme.text h
      simp [numeral, hx] at htext
  · unfold simple at h
    split at h
    · cases congrArg Lexeme.text h
    · exact absurd (congrArg Lexeme.kind h).symm (hvalid _)

/-- **The scanner** cuts the same token whatever follows it, as long as that does not go on with a
name or a number. -/
theorem lexeme_replace {c : Char} (h : lexeme c (text ++ behind) = ⟨kind, c :: text, behind⟩)
    (hvalid : ∀ mistake, kind ≠ .invalid mistake) (hother : Bounds behind other) :
    lexeme c (text ++ other) = ⟨kind, c :: text, other⟩ := by
  have hminus : c = '-' → ((text ++ other).head?.any Char.isDigit ↔
      (text ++ behind).head?.any Char.isDigit) := by
    rintro rfl
    obtain ⟨x, rest, rfl⟩ := List.exists_cons_of_ne_nil (ne_nil_of_minus h hvalid)
    exact Iff.rfl
  unfold lexeme at h ⊢
  by_cases hquote : c = '"'
  · subst hquote
    rw [if_pos rfl] at h ⊢
    exact quoted_replace h hvalid other
  rw [if_neg hquote] at h ⊢
  by_cases hbrace : c = '\x7b'
  · subst hbrace
    rw [if_pos rfl] at h ⊢
    exact block_replace h hvalid other
  rw [if_neg hbrace] at h ⊢
  by_cases hdigit : c.isDigit = true
  · rw [if_pos hdigit] at h ⊢
    have hnumeral : numeral [] ((c :: text) ++ behind) = ⟨kind, [] ++ (c :: text), behind⟩ := h
    exact numeral_replace hnumeral hvalid hother
  rw [if_neg hdigit] at h ⊢
  by_cases hsign : (c = '-' && (text ++ behind).head?.any Char.isDigit) = true
  · rw [if_pos hsign] at h
    simp only [Bool.and_eq_true, decide_eq_true_eq] at hsign
    obtain ⟨rfl, hdigits⟩ := hsign
    rw [if_pos (by simpa using (hminus rfl).2 hdigits)]
    have hnumeral : numeral ['-'] (text ++ behind) = ⟨kind, ['-'] ++ text, behind⟩ := h
    exact numeral_replace hnumeral hvalid hother
  · rw [if_neg hsign] at h
    rw [if_neg]
    · exact simple_replace h hvalid hother
    · simp only [Bool.and_eq_true, decide_eq_true_eq] at hsign ⊢
      exact fun hother => hsign ⟨hother.1, (hminus hother.1).1 hother.2⟩

end

/-! ### Tokens behind nothing to skip -/

/-- The text starts with a token of this kind, which is read from `inside`, and `behind` is left. -/
structure Cuts (kind : TokenKind) (inside behind : List Char) : Prop where
  /-- Nothing is skipped before the token. -/
  maximal : ¬StartsGap (inside ++ behind)
  /-- The token is the lexeme at the front. -/
  cut : ∃ c text, inside = c :: text ∧ lexeme c (text ++ behind) = ⟨kind, inside, behind⟩

namespace Cuts

variable {kind : TokenKind} {inside behind other : List Char}

theorem inside_ne_nil (h : Cuts kind inside behind) : inside ≠ [] := by
  obtain ⟨c, text, rfl, -⟩ := h.cut
  exact List.cons_ne_nil c text

/-- **A token** is cut the same whatever follows it. -/
theorem replace (h : Cuts kind inside behind) (hvalid : ∀ mistake, kind ≠ .invalid mistake)
    (hother : Bounds behind other) : Cuts kind inside other := by
  obtain ⟨c, text, rfl, hcut⟩ := h.cut
  refine ⟨fun hgap => h.maximal ?_, c, text, rfl, lexeme_replace hcut hvalid hother⟩
  rcases hgap with hblank | hsign | ⟨rfl, -⟩
  · exact .inl hblank
  · exact .inr (.inl hsign)
  · -- No token starts with a slash.
    exact absurd (congrArg Lexeme.kind hcut).symm (hvalid _)

end Cuts

end CallGraph
