import Mathlib.Logic.Function.Iterate
import CallGraph.Proofs.Token.Layout
import CallGraph.Proofs.Token.Nesting
import CallGraph.Proofs.Token.Trivia

/-!
# Tokens tile the source

A text is its tokens, one after the other, with blanks and comments in between.

* `Tile`, `Tiling` — a token with the gap before it, and how tiles make up a text;
* `Scanner.exists_tiling` — the tokens that the scanner cuts tile the text;
* `Scanner.after` — the scanner after any number of calls; `next_after` — what the next call returns;
* `Token.CutBehind` — where a token lies in the source, in bytes;
* `tokens_tile` — all of it, for every source and every origin.
-/

namespace CallGraph

/-! ### Tiles -/

/-- A token with the gap before it. -/
structure Tile where
  /-- The blanks and comments. -/
  gap : List Char
  /-- The token. -/
  token : Token

/-- The characters of a tile. -/
def Tile.chars (tile : Tile) : List Char := tile.gap ++ tile.token.text.toList

/-- The characters of the tiles, one after the other. -/
def charsOf (tiles : List Tile) : List Char := tiles.flatMap Tile.chars

/-- The tiles make up the text that starts at `origin`, together with a gap behind the last of them. -/
structure Tiling (origin : Location) (text : List Char) (tiles : List Tile) (tail : List Char)
    (last : Token) : Prop where
  /-- Nothing is lost and nothing is added. -/
  text_eq : text = charsOf tiles ++ tail
  /-- Before each token there are blanks and comments that end on their lines. -/
  trivia : ∀ tile ∈ tiles, Trivia tile.gap
  /-- Behind the last token there are blanks and comments, of which the last one may end without a line
  feed. -/
  gap : Gap [] tail
  /-- No gap could be longer. -/
  maximal : ∀ before tile behind, tiles = before ++ tile :: behind →
    ¬ StartsGap (tile.token.text.toList ++ (charsOf behind ++ tail))
  /-- No token is empty. -/
  nonempty : ∀ tile ∈ tiles, tile.token.text ≠ ""
  /-- Each token is located behind everything before it. -/
  placed : ∀ before tile behind, tiles = before ++ tile :: behind →
    tile.token.span =
      .ofText (origin.advance (charsOf before ++ tile.gap)) tile.token.text.toList
  /-- The end token stands at the end. -/
  last_eq : last = .endAt (origin.advance text)

section

variable {origin : Location} {gap inside behind tail : List Char} {token last : Token}
  {tiles : List Tile}

theorem charsOf_cons (tile : Tile) (tiles : List Tile) :
    charsOf (tile :: tiles) = tile.chars ++ charsOf tiles :=
  List.flatMap_cons

/-- A text without tokens. -/
theorem tiling_nil (h : Gap [] gap) : Tiling origin gap [] gap (.endAt (origin.advance gap)) := by
  have hsplit : ∀ (before : List Tile) (tile : Tile) (behind : List Tile),
      [] ≠ before ++ tile :: behind :=
    fun before _ _ heq =>
      List.append_ne_nil_of_right_ne_nil before (List.cons_ne_nil _ _) heq.symm
  exact ⟨rfl, List.forall_mem_nil _, h, fun _ _ _ heq => absurd heq (hsplit _ _ _),
    List.forall_mem_nil _, fun _ _ _ heq => absurd heq (hsplit _ _ _), rfl⟩

/-- The tiles of a text lie behind a token that is cut from its front. -/
theorem tiling_cons (hgap : Trivia gap) (hmaximal : ¬ StartsGap (inside ++ behind))
    (hinside : inside ≠ []) (htext : token.text = String.ofList inside)
    (hspan : token.span = .ofText (origin.advance gap) inside)
    (h : Tiling ((origin.advance gap).advance inside) behind tiles tail last) :
    Tiling origin (gap ++ (inside ++ behind)) (⟨gap, token⟩ :: tiles) tail last := by
  have hchars : token.text.toList = inside := by rw [htext, String.toList_ofList]
  have htile : Tile.chars ⟨gap, token⟩ = gap ++ inside := congrArg (gap ++ ·) hchars
  rw [← Location.advance_append] at h
  refine ⟨?_, ?_, h.gap, ?_, ?_, ?_, ?_⟩
  · rw [charsOf_cons, htile, List.append_assoc, List.append_assoc, ← h.text_eq]
  · exact List.forall_mem_cons.2 ⟨hgap, h.trivia⟩
  · intro before tile after htiles
    rcases List.cons_eq_append_iff.1 htiles with ⟨rfl, hfirst⟩ | ⟨before, rfl, hrest⟩
    · obtain ⟨rfl, rfl⟩ := List.cons.inj hfirst
      rw [hchars, ← h.text_eq]
      exact hmaximal
    · exact h.maximal before tile after hrest
  · refine List.forall_mem_cons.2 ⟨fun hempty => hinside ?_, h.nonempty⟩
    rw [← hchars, hempty]
    rfl
  · intro before tile after htiles
    rcases List.cons_eq_append_iff.1 htiles with ⟨rfl, hfirst⟩ | ⟨before, rfl, hrest⟩
    · obtain ⟨rfl, rfl⟩ := List.cons.inj hfirst
      rw [hchars]
      exact hspan
    · rw [h.placed before tile after hrest, ← Location.advance_append, charsOf_cons, htile,
        List.append_assoc (gap ++ inside)]
  · rw [h.last_eq, ← Location.advance_append, List.append_assoc]

/-- Tiles with tokens that are not empty have a byte each. -/
theorem length_le_charsOf {tiles : List Tile} (h : ∀ tile ∈ tiles, tile.token.text ≠ "") :
    tiles.length ≤ byteLength (charsOf tiles) := by
  induction tiles with
  | nil => exact Nat.le_refl 0
  | cons tile tiles ih =>
    obtain ⟨htile, hrest⟩ := List.forall_mem_cons.1 h
    have hpos := byteLength_pos fun hnil => htile (String.toList_eq_nil_iff.1 hnil)
    have hle := ih hrest
    rw [charsOf_cons, Tile.chars, byteLength_append, byteLength_append, List.length_cons]
    omega

/-- There are no more tokens than bytes. -/
theorem Tiling.length_le {text : List Char} (h : Tiling origin text tiles tail last) :
    tiles.length ≤ byteLength text := by
  rw [h.text_eq, byteLength_append]
  exact Nat.le_add_right_of_le (length_le_charsOf h.nonempty)

end

/-! ### Where a token lies, in bytes -/

/-- The token is cut from the source behind the characters that have been passed.  It starts and stops at
boundaries of characters, and what it takes out of a payload does so, too. -/
structure Token.CutBehind (origin : Location) (source : String) (passed : List Char) (token : Token) :
    Prop where
  /-- It is located behind everything before it. -/
  location_eq : token.span.location = origin.advance passed
  /-- The offset of its first byte. -/
  start_eq : token.span.start = origin.offset + byteLength passed
  /-- The offset behind its last byte. -/
  stop_eq : token.span.stop = origin.offset + byteLength (passed ++ token.text.toList)
  /-- It starts at the boundary of a character. -/
  starts : String.Pos.Raw.IsValid source ⟨byteLength passed⟩
  /-- It stops at the boundary of a character. -/
  stops : String.Pos.Raw.IsValid source ⟨byteLength (passed ++ token.text.toList)⟩
  /-- The braces of a payload are one byte each, and what stands between them starts and stops at
  boundaries of characters. -/
  payload : ∀ inner, token.kind = .payload inner →
    token.text.toList = '\x7b' :: inner.toList ++ ['\x7d'] ∧
      String.Pos.Raw.IsValid source ⟨byteLength passed + 1⟩ ∧
      String.Pos.Raw.IsValid source ⟨byteLength passed + 1 + inner.utf8ByteSize⟩

theorem cutBehind_of_span {origin : Location} {source : String} {passed behind : List Char}
    {token : Token} (htext : source.toList = passed ++ token.text.toList ++ behind)
    (hspan : token.span = .ofText (origin.advance passed) token.text.toList)
    (hpayload : ∀ inner, token.kind = .payload inner →
      token.text.toList = '\x7b' :: inner.toList ++ ['\x7d']) :
    token.CutBehind origin source passed := by
  have hvalid : ∀ text, text <+: token.text.toList →
      String.Pos.Raw.IsValid source ⟨byteLength (passed ++ text)⟩ := by
    rintro text ⟨rest, hrest⟩
    refine isValid_of_prefix ⟨rest ++ behind, ?_⟩
    rw [htext, ← hrest]
    simp only [List.append_assoc]
  refine ⟨?_, ?_, ?_, ?_, hvalid _ (List.prefix_refl _), fun inner hinner => ?_⟩
  · rw [hspan]
    rfl
  · rw [hspan]
    exact Location.offset_advance origin passed
  · rw [hspan, Span.stop_ofText, ← Location.advance_append, Location.offset_advance]
  · have hstart := hvalid [] List.nil_prefix
    rwa [List.append_nil] at hstart
  · have hbraces := hpayload inner hinner
    refine ⟨hbraces, ?_, ?_⟩
    · have hopen := hvalid ['\x7b'] ⟨_, hbraces.symm⟩
      rwa [byteLength_append] at hopen
    · have hclose := hvalid ('\x7b' :: inner.toList) ⟨_, hbraces.symm⟩
      rw [byteLength_append, byteLength_cons, byteLength_toList, ← Nat.add_assoc] at hclose
      exact hclose

/-- Each token of a tiling is cut from the source behind what stands before it. -/
theorem Tiling.cutBehind {origin : Location} {source : String} {tiles : List Tile} {tail : List Char}
    {last : Token} (h : Tiling origin source.toList tiles tail last) {before behind : List Tile}
    {tile : Tile} (htiles : tiles = before ++ tile :: behind)
    (hpayload : ∀ inner, tile.token.kind = .payload inner →
      tile.token.text.toList = '\x7b' :: inner.toList ++ ['\x7d']) :
    tile.token.CutBehind origin source (charsOf before ++ tile.gap) := by
  have htext : source.toList =
      (charsOf before ++ tile.gap) ++ tile.token.text.toList ++ (charsOf behind ++ tail) := by
    rw [h.text_eq, htiles, charsOf, List.flatMap_append, List.flatMap_cons, Tile.chars]
    simp only [List.append_assoc]
    rfl
  exact cutBehind_of_span htext (h.placed before tile behind htiles) hpayload

namespace Scanner

/-! ### The scanner cuts tiles -/

/-- Each token of a scanner is a lexeme. -/
theorem exists_lexeme (s : Scanner) : ∀ token ∈ s.tokens.1, ∃ c cs,
    token.kind = (lexeme c cs).kind ∧ token.text.toList = (lexeme c cs).text := by
  fun_induction tokens s with
  | case1 s h => exact List.forall_mem_nil _
  | case2 s h rest last hrest ih =>
    rw [hrest] at ih
    refine List.forall_mem_cons.2 ⟨?_, ih⟩
    rcases s.next_cases with hlast | ⟨gap, c, cs, -, hnext, -⟩
    · rw [hlast] at h
      exact absurd rfl h
    · rw [hnext]
      exact ⟨c, cs, rfl, String.toList_ofList⟩

/-- **The tokens tile the text.** -/
theorem exists_tiling (s : Scanner) : ∃ tiles tail,
    tiles.map Tile.token = s.tokens.1 ∧ Tiling s.position s.rest tiles tail s.tokens.2 := by
  fun_induction tokens s with
  | case1 s h =>
    have hgap := (gap_spanTrivia false s.rest).1 rfl
    have happend := spanTrivia_append false s.rest
    rw [rest_of_isEnd h, List.append_nil] at happend
    rw [rest_of_isEnd h, happend] at hgap
    rw [next_of_nil (rest_of_isEnd h)]
    exact ⟨[], s.rest, rfl, tiling_nil hgap⟩
  | case2 s h rest last hscanned ih =>
    have hgap := (gap_spanTrivia false s.rest).1 rfl
    have hmaximal := not_startsGap_spanTrivia false s.rest
    have happend := spanTrivia_append false s.rest
    obtain ⟨c, cs, hrest⟩ := exists_rest_of_not_isEnd h
    rw [hrest] at hgap hmaximal happend
    obtain ⟨tiles, tail, htokens, htiling⟩ := ih
    rw [hscanned] at htokens htiling
    have hnext := next_of_cons hrest
    have htrivia := hgap.resolve_right fun hopen => List.cons_ne_nil c cs hopen.1
    have hcut := Lexeme.text_append_rest c cs
    rw [← hcut] at hmaximal happend
    refine ⟨⟨(spanTrivia false s.rest).1, s.next.1⟩ :: tiles, tail, congrArg (_ :: ·) htokens, ?_⟩
    rw [hnext] at htiling
    have hcons := tiling_cons htrivia hmaximal (Lexeme.text_ne_nil c cs)
      (congrArg (fun found => found.1.text) hnext) (congrArg (fun found => found.1.span) hnext) htiling
    rw [happend] at hcons
    exact hcons

/-! ### Call after call -/

/-- The scanner after so many calls. -/
def after (s : Scanner) (calls : Nat) : Scanner := (fun s : Scanner => s.next.2)^[calls] s

theorem after_succ (s : Scanner) (calls : Nat) : s.after (calls + 1) = s.next.2.after calls :=
  Function.iterate_succ_apply _ calls s

theorem tokens_of_isEnd {s : Scanner} (h : s.next.1.isEnd = true) : s.tokens = ([], s.next.1) := by
  rw [tokens, dif_pos h]

theorem tokens_of_not_isEnd {s : Scanner} (h : ¬ s.next.1.isEnd = true) :
    s.tokens = (s.next.1 :: s.next.2.tokens.1, s.next.2.tokens.2) := by
  rw [tokens, dif_neg h]

/-- Behind the end token nothing changes any more. -/
theorem next_next_of_isEnd {s : Scanner} (h : s.next.1.isEnd = true) : s.next.2.next = s.next := by
  rw [next_of_nil (rest_of_isEnd h)]
  exact next_of_nil rfl

/-- **What the next call returns** is the next token, and the end token once there is none. -/
theorem next_after (s : Scanner) (calls : Nat) :
    (s.after calls).next.1 = s.tokens.1.getD calls s.tokens.2 := by
  induction calls generalizing s with
  | zero =>
    by_cases h : s.next.1.isEnd = true
    · rw [tokens_of_isEnd h]
      rfl
    · rw [tokens_of_not_isEnd h]
      rfl
  | succ calls ih =>
    rw [after_succ, ih]
    by_cases h : s.next.1.isEnd = true
    · have hnext := next_next_of_isEnd h
      have hend : s.next.2.next.1.isEnd = true := (congrArg (fun found => found.1.isEnd) hnext).trans h
      rw [tokens_of_isEnd h, tokens_of_isEnd hend, hnext]
      rfl
    · rw [tokens_of_not_isEnd h]
      rfl

/-- A call that does not return the end token returns the token that is next in turn, and the later ones
start behind it. -/
theorem exists_tokens_eq {s : Scanner} {calls : Nat} (h : (s.after calls).next.1.kind ≠ .endOfInput) :
    ∃ before later, s.tokens.1 = before ++ (s.after calls).next.1 :: later ∧ before.length = calls ∧
      ∀ token ∈ later, (s.after calls).next.1.span.stop ≤ token.span.start := by
  have hlt : calls < s.tokens.1.length := by
    refine Nat.lt_of_not_le fun hle => h ?_
    rw [next_after, List.getD_eq_getElem?_getD, List.getElem?_eq_none hle]
    exact s.kind_last
  have htokens : s.tokens.1 =
      s.tokens.1.take calls ++ (s.after calls).next.1 :: s.tokens.1.drop (calls + 1) := by
    rw [next_after, List.getD_eq_getElem?_getD, List.getElem?_eq_getElem hlt, Option.getD_some,
      List.getElem_cons_drop, List.take_append_drop]
  have hordered := s.layout.ordered
  rw [htokens] at hordered
  exact ⟨_, _, htokens, List.length_take_of_le (Nat.le_of_lt hlt),
    (List.pairwise_cons.1 (List.pairwise_append.1 hordered).2.1).1⟩

/-- A call passes some characters, and the scanner is located behind them. -/
theorem exists_passed_next (s : Scanner) : ∃ passed, s.rest = passed ++ s.next.2.rest ∧
    s.next.2.position = s.position.advance passed := by
  have happend := spanTrivia_append false s.rest
  cases hrest : (spanTrivia false s.rest).2 with
  | nil =>
    rw [next_of_nil hrest]
    exact ⟨s.rest, (List.append_nil _).symm, rfl⟩
  | cons c cs =>
    rw [hrest, ← Lexeme.text_append_rest c cs, ← List.append_assoc] at happend
    rw [next_of_cons hrest]
    exact ⟨_, happend.symm, (Location.advance_append _ _ _).symm⟩

/-- Any number of calls pass some characters, and the scanner is located behind them. -/
theorem exists_passed (s : Scanner) (calls : Nat) : ∃ passed,
    s.rest = passed ++ (s.after calls).rest ∧
      (s.after calls).position = s.position.advance passed := by
  induction calls generalizing s with
  | zero => exact ⟨[], rfl, rfl⟩
  | succ calls ih =>
    obtain ⟨first, hrest, hposition⟩ := s.exists_passed_next
    obtain ⟨others, hothers, hlast⟩ := ih s.next.2
    refine ⟨first ++ others, ?_, ?_⟩
    · rw [hrest, hothers, after_succ, List.append_assoc]
    · rw [after_succ, hlast, hposition, Location.advance_append]

end Scanner

/-! ### Payloads -/

/-- A lexeme starts with the character that calls for it. -/
theorem Lexeme.head?_text (c : Char) (cs : List Char) : (lexeme c cs).text.head? = some c := by
  have hcut := text_append_rest c cs
  obtain ⟨d, text, htext⟩ := List.exists_cons_of_ne_nil (text_ne_nil c cs)
  rw [htext] at hcut ⊢
  exact congrArg some (List.cons.inj hcut).1

/-- A lexeme that starts with a brace is a payload. -/
theorem Lexeme.eq_block {c : Char} {cs : List Char} (h : (lexeme c cs).text.head? = some '\x7b') :
    lexeme c cs = block cs := by
  rw [head?_text] at h
  obtain rfl := Option.some.inj h
  rfl

/-! ### All of it -/

/-- **Tokens tile the source.**  A source is made up of its tokens, of which none is empty, and of blanks
and comments between them.  There is at most one token for each byte, and then the end token, which
stands at the end of the source; each call of the scanner returns the next of them, and the end token
forever after.  Each token starts and stops at boundaries of characters and is located behind everything
before it, and the scanner itself is behind a beginning of the source after each call.  In a payload some
brace is open up to its end. -/
theorem tokens_tile (origin : Location) (source : String) :
    let scanner := Scanner.startingAt origin source
    let tokens := scanner.tokens.1
    let last := scanner.tokens.2
    (∃ tiles tail, tiles.map Tile.token = tokens ∧ Tiling origin source.toList tiles tail last ∧
      ∀ before tile behind, tiles = before ++ tile :: behind →
        tile.token.CutBehind origin source (charsOf before ++ tile.gap)) ∧
    (tokens ++ [last]).length ≤ source.utf8ByteSize + 1 ∧
    (∀ calls, (scanner.after calls).next.1 = tokens.getD calls last) ∧
    ((∀ token ∈ tokens, token.kind ≠ .endOfInput) ∧
      last = .endAt (origin.advance source.toList)) ∧
    (∀ calls, ∃ passed, source.toList = passed ++ (scanner.after calls).rest ∧
      (scanner.after calls).position = origin.advance passed ∧
      String.Pos.Raw.IsValid source ⟨byteLength passed⟩) ∧
    ∀ token ∈ tokens, token.text.toList.head? = some '\x7b' →
      StaysOpen token.text.toList ∧
        ((∃ inner, token.kind = .payload inner) ∧ braceDepth .outside token.text.toList = 0 ∨
          token.kind = .invalid .unterminatedPayload ∧
            0 < braceDepth .outside token.text.toList) := by
  intro scanner tokens last
  have hlexemes : ∀ token ∈ tokens, ∃ c cs, token.kind = (lexeme c cs).kind ∧
      token.text.toList = (lexeme c cs).text := scanner.exists_lexeme
  obtain ⟨tiles, tail, htokens, htiling⟩ := scanner.exists_tiling
  refine ⟨⟨tiles, tail, htokens, htiling, fun before tile behind htiles => ?_⟩, ?_,
    scanner.next_after, ⟨scanner.kind_ne_endOfInput, htiling.last_eq⟩, fun calls => ?_,
    fun token htoken hbrace => ?_⟩
  · refine htiling.cutBehind htiles fun inner hinner => ?_
    have htile : tile ∈ tiles := htiles ▸ List.mem_append_right _ List.mem_cons_self
    obtain ⟨c, cs, hkind, htext⟩ := hlexemes _ (htokens ▸ List.mem_map_of_mem htile)
    rw [htext]
    exact (Lexeme.kind_lexeme c cs).2 inner (hkind ▸ hinner)
  · have hle := htiling.length_le
    have hlength : tiles.length = tokens.length := by rw [← List.length_map, htokens]
    rw [show scanner.rest = source.toList from rfl, byteLength_toList, hlength] at hle
    rw [List.length_append]
    exact Nat.succ_le_succ hle
  · obtain ⟨passed, hrest, hposition⟩ := scanner.exists_passed calls
    exact ⟨passed, hrest, hposition, isValid_of_prefix ⟨_, hrest.symm⟩⟩
  · obtain ⟨c, cs, hkind, htext⟩ := hlexemes token htoken
    rw [htext] at hbrace ⊢
    rw [hkind, Lexeme.eq_block hbrace]
    exact block_staysOpen cs

end CallGraph
