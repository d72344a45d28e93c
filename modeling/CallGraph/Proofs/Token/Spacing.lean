import CallGraph.Proofs.Token.Scan

/-!
# Spacing makes no difference

Where a token ends depends on what follows it, but blanks and comments end every token.  So the tokens of a
text do not change if its gaps are filled in another way, as long as two tokens are kept apart.

* `spaced` — words with gaps before them, and a gap behind the last one;
* `Fills` — the gaps are blanks and comments;
* `Scans.exists_spacing` — a text is its tokens with gaps in between;
* `stops_spaced` — no word goes on into the gap behind it;
* `Scans.spaced` — **the same words with other gaps** are cut into the same tokens;
* `spacing_irrelevant` — both, for every source without a mistake.
-/

namespace CallGraph

/-! ### Words and gaps -/

/-- The words, each behind its gap, and what stands behind the last of them. -/
def spaced (gaps : List (List Char)) (words : List String) (tail : List Char) : List Char :=
  (List.zipWith (fun gap word => gap ++ word.toList) gaps words).flatten ++ tail

/-- There is a gap before each word, made of blanks and comments that end on their lines.  Behind the last
word the last comment may be open. -/
structure Fills (gaps : List (List Char)) (words : List String) (tail : List Char) : Prop where
  /-- There are as many gaps as words. -/
  length_eq : gaps.length = words.length
  /-- Before each word there are blanks and comments. -/
  trivia : ∀ gap ∈ gaps, Trivia gap
  /-- Behind the last word there are blanks and comments. -/
  behind : Gap [] tail

/-- What a token says, wherever it stands: its kind with its data, its text and the number of bytes that it
covers. -/
def Token.content (t : Token) : TokenKind × String × Nat := (t.kind, t.text, t.span.length)

section

variable {gap tail text : List Char} {gaps : List (List Char)} {word : String} {words : List String}
  {here : Location} {tokens : List Token}

theorem spaced_cons (gap : List Char) (gaps : List (List Char)) (word : String) (words : List String)
    (tail : List Char) :
    spaced (gap :: gaps) (word :: words) tail = gap ++ (word.toList ++ spaced gaps words tail) := by
  unfold spaced
  rw [List.zipWith_cons_cons, List.flatten_cons, List.append_assoc, List.append_assoc]

theorem fills_nil (h : Gap [] tail) : Fills [] [] tail :=
  ⟨rfl, List.forall_mem_nil _, h⟩

theorem Fills.cons (hgap : Trivia gap) (h : Fills gaps words tail) (word : String) :
    Fills (gap :: gaps) (word :: words) tail :=
  ⟨congrArg Nat.succ h.length_eq, List.forall_mem_cons.2 ⟨hgap, h.trivia⟩, h.behind⟩

theorem Fills.of_cons (h : Fills (gap :: gaps) (word :: words) tail) :
    Trivia gap ∧ Fills gaps words tail :=
  ⟨h.trivia gap List.mem_cons_self,
    Nat.succ.inj h.length_eq, fun g hg => h.trivia g (List.mem_cons_of_mem _ hg), h.behind⟩

/-! ### Gaps end words -/

/-- No word goes on with a comment. -/
theorem IsComment.stops (h : IsComment gap) (rest : List Char) : Stops isNamePart (gap ++ rest) := by
  obtain ⟨marker, body, rfl | rfl, -, rfl⟩ := h
  · rintro c ⟨⟩
    decide
  · rintro c ⟨⟩
    decide

/-- No word goes on with blanks or comments. -/
theorem Trivia.stops (h : Trivia gap) (hne : gap ≠ []) (rest : List Char) :
    Stops isNamePart (gap ++ rest) := by
  cases h with
  | nil => exact absurd rfl hne
  | blank hc _ =>
    rintro c ⟨⟩
    revert hc
    simp only [List.mem_cons, List.not_mem_nil, or_false]
    rintro (rfl | rfl | rfl | rfl) <;> decide
  | comment hcomment _ =>
    rw [List.append_assoc]
    exact hcomment.stops _

theorem Gap.stops (h : Gap [] gap) : Stops isNamePart gap := by
  have htrivia : ∀ {text rest : List Char}, Trivia text → Stops isNamePart rest →
      Stops isNamePart (text ++ rest) := by
    intro text rest htext hrest
    cases text with
    | nil => exact hrest
    | cons c text => exact htext.stops (List.cons_ne_nil c text) rest
  rcases h with h | ⟨-, text, comment, htext, hcomment, rfl⟩
  · have hstops := htrivia h (stops_nil isNamePart)
    rwa [List.append_nil] at hstops
  · have hstops := htrivia htext (hcomment.stops [])
    rwa [List.append_nil] at hstops

/-- **No word goes on** into words that are kept apart from it. -/
theorem stops_spaced (h : Fills gaps words tail) (hapart : ∀ gap ∈ gaps, gap ≠ []) :
    Stops isNamePart (spaced gaps words tail) := by
  cases gaps with
  | nil => exact h.behind.stops
  | cons gap gaps =>
    cases words with
    | nil => cases h.length_eq
    | cons word words =>
      rw [spaced_cons]
      exact h.of_cons.1.stops (hapart gap List.mem_cons_self) _

namespace Scans

/-- **A text** is its tokens with gaps in between. -/
theorem exists_spacing (h : Scans here text tokens) :
    ∃ gaps tail, Fills gaps (tokens.map Token.text) tail ∧
      text = CallGraph.spaced gaps (tokens.map Token.text) tail := by
  induction h with
  | @nil _ text hgap => exact ⟨[], text, fills_nil hgap, rfl⟩
  | @cons _ gap inside behind kind tokens htrivia _ _ ih =>
    obtain ⟨gaps, tail, hfills, rfl⟩ := ih
    refine ⟨gap :: gaps, tail, hfills.cons htrivia _, ?_⟩
    rw [List.map_cons, spaced_cons, String.toList_ofList]

/-- **The same words with other gaps** are cut into the same tokens, if two of them are kept apart by more
than nothing. -/
theorem spaced (h : Scans here text tokens)
    (hvalid : ∀ token ∈ tokens, ∀ mistake, token.kind ≠ .invalid mistake)
    (hfills : Fills gaps (tokens.map Token.text) tail) (hapart : ∀ gap ∈ gaps.tail, gap ≠ [])
    (place : Location) :
    ∃ moved, Scans place (CallGraph.spaced gaps (tokens.map Token.text) tail) moved ∧
      moved.map Token.content = tokens.map Token.content := by
  induction h generalizing gaps place with
  | nil =>
    obtain rfl := List.eq_nil_of_length_eq_zero hfills.length_eq
    exact ⟨[], .nil hfills.behind, rfl⟩
  | @cons _ _ inside behind kind tokens _ hcuts _ ih =>
    obtain ⟨hfirst, hrest⟩ := List.forall_mem_cons.1 hvalid
    cases gaps with
    | nil => cases hfills.length_eq
    | cons gap gaps =>
      obtain ⟨hgap, hfills⟩ := hfills.of_cons
      have hothers : ∀ gap ∈ gaps.tail, gap ≠ [] := fun g hg => hapart g (List.mem_of_mem_tail hg)
      obtain ⟨moved, hscans, hmoved⟩ :=
        ih hrest hfills hothers ((place.advance gap).advance inside)
      -- The token ends where the next gap starts.
      have hcuts := hcuts.replace hfirst (bounds_of_stops (stops_spaced hfills hapart))
      refine ⟨⟨kind, .ofList inside, .ofText (place.advance gap) inside⟩ :: moved, ?_, ?_⟩
      · rw [List.map_cons, spaced_cons, String.toList_ofList]
        exact .cons hgap hcuts hscans
      · rw [List.map_cons, hmoved]
        rfl

end Scans

end

/-! ### All of it -/

/-- **Spacing makes no difference.**  A source is its tokens with gaps in between, some of which may be
empty.  If none of the tokens is a mistake, the gaps can be filled in any other way, as long as none of those
between two tokens is left empty: the tokens are the same, with their data, their texts and their lengths,
and only their places change. -/
theorem spacing_irrelevant (origin place : Location) (source : String)
    (hvalid : ∀ token ∈ (Scanner.startingAt origin source).tokens.1, ∀ mistake,
      token.kind ≠ .invalid mistake) :
    let tokens := (Scanner.startingAt origin source).tokens.1
    let words := tokens.map Token.text
    (∃ gaps tail, Fills gaps words tail ∧ source.toList = spaced gaps words tail) ∧
    ∀ gaps tail, Fills gaps words tail → (∀ gap ∈ gaps.tail, gap ≠ []) →
      let moved := (Scanner.startingAt place (String.ofList (spaced gaps words tail))).tokens
      moved.1.map Token.content = tokens.map Token.content ∧
        moved.2 = .endAt (place.advance (spaced gaps words tail)) := by
  intro tokens words
  have hscans : Scans origin source.toList tokens := (Scanner.startingAt origin source).scans
  refine ⟨hscans.exists_spacing, fun gaps tail hfills hapart => ?_⟩
  obtain ⟨moved, hmoved, hcontent⟩ := hscans.spaced hvalid hfills hapart place
  have htokens := hmoved.tokens_eq (String.ofList (spaced gaps words tail))
  have hstart : Scanner.startingAt place (String.ofList (spaced gaps words tail)) =
      ⟨String.ofList (spaced gaps words tail), spaced gaps words tail, place⟩ := by
    rw [Scanner.startingAt, String.toList_ofList]
  rw [hstart, htokens]
  exact ⟨hcontent, rfl⟩

/-- Tokens that stand side by side are moved apart, with a comment that is never closed behind the last. -/
theorem spacing_irrelevant_side_by_side :
    let tokens := (Scanner.startingAt .start "a->1-2").tokens.1
    let gaps := [['#', '\n'], [' '], ['\t', '/', '/', '\n'], ['\r']]
    (∀ token ∈ tokens, ∀ mistake, token.kind ≠ .invalid mistake) ∧
      Fills gaps (tokens.map Token.text) ['/', '/', '-'] ∧ (∀ gap ∈ gaps.tail, gap ≠ []) ∧
      (Scanner.startingAt .start "#\na ->\t//\n1\r-2//-").tokens.1.map Token.content =
        [(.identifier "a", "a", 1), (.arrow, "->", 2), (.number 1, "1", 1), (.number (-2), "-2", 2)] := by
  intro tokens gaps
  have htokens : tokens = [
      ⟨.identifier "a", "a", ⟨⟨1, 1, 0⟩, 1⟩⟩, ⟨.arrow, "->", ⟨⟨1, 2, 1⟩, 2⟩⟩,
      ⟨.number 1, "1", ⟨⟨1, 4, 3⟩, 1⟩⟩, ⟨.number (-2), "-2", ⟨⟨1, 5, 4⟩, 2⟩⟩] := by
    decide +kernel
  have hvalid : ∀ token ∈ tokens, ∀ mistake, token.kind ≠ .invalid mistake := by
    rw [htokens]
    simp
  have hcomment : IsComment ['#'] := ⟨['#'], [], .inl rfl, List.not_mem_nil, rfl⟩
  have hslashes : IsComment ['/', '/'] := ⟨['/', '/'], [], .inr rfl, List.not_mem_nil, rfl⟩
  have hfills : Fills gaps (tokens.map Token.text) ['/', '/', '-'] := by
    rw [htokens]
    refine ⟨rfl, ?_, .inr ⟨rfl, [], _, .nil, ⟨['/', '/'], ['-'], .inr rfl, by decide, rfl⟩, rfl⟩⟩
    simp only [gaps, List.forall_mem_cons]
    exact ⟨.comment hcomment .nil, .blank (by decide) .nil,
      .blank (by decide) (.comment hslashes .nil), .blank (by decide) .nil, List.forall_mem_nil _⟩
  have hapart : ∀ gap ∈ gaps.tail, gap ≠ [] := by
    simp [gaps]
  refine ⟨hvalid, hfills, hapart, ?_⟩
  have hmoved := ((spacing_irrelevant .start .start "a->1-2" hvalid).2 gaps _ hfills hapart).1
  have htext : String.ofList (spaced gaps (tokens.map Token.text) ['/', '/', '-']) =
      "#\na ->\t//\n1\r-2//-" := by
    rw [htokens]
    rfl
  rw [← htext]
  refine hmoved.trans ?_
  rw [show (Scanner.startingAt .start "a->1-2").tokens.1 = _ from htokens]
  rfl

end CallGraph
