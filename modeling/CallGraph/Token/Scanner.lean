import CallGraph.Token.Lexeme

/-!
# The scanner

The scanner cuts a text into tokens.  It keeps the characters not read yet and their location, and
hands out one token at a time, skipping blanks and comments in between.

* `Scanner.next` — the next token; at the end there is an end token, again and again;
* `Scanner.tokens` — all tokens, by repeated use of `Scanner.next`;
* `Scanner.length_rest_next` — every token but the end token takes characters away.
-/

namespace CallGraph

/-- A text being cut into tokens. -/
structure Scanner where
  /-- The whole text. -/
  source : String
  /-- The characters not read yet. -/
  rest : List Char
  /-- Where they start. -/
  position : Location

namespace Scanner

/-- A scanner for a text that starts at a location of some larger text. -/
def startingAt (origin : Location) (source : String) : Scanner :=
  ⟨source, source.toList, origin⟩

/-- A scanner for a text of its own. -/
def ofString (source : String) : Scanner := startingAt .start source

/-- Whether nothing is left, not even blanks. -/
def isFinished (s : Scanner) : Bool := s.rest.isEmpty

/-- The next token and the scanner behind it.  At the end there is an end token, again and
again. -/
def next (s : Scanner) : Token × Scanner :=
  let (gap, rest) := spanTrivia false s.rest
  let here := s.position.advance gap
  match rest with
  | [] => (.endAt here, { s with rest := [], position := here })
  | c :: cs =>
    let found := lexeme c cs
    (⟨found.kind, String.ofList found.text, .ofText here found.text⟩,
      { s with rest := found.rest, position := here.advance found.text })

theorem length_rest_next (s : Scanner) (h : s.next.1.isEnd = false) :
    s.next.2.rest.length < s.rest.length := by
  have hgap := spanTrivia_append false s.rest
  unfold next at h ⊢
  generalize spanTrivia false s.rest = gr at h hgap ⊢
  obtain ⟨gap, rest⟩ := gr
  simp only at h hgap ⊢
  cases rest with
  | nil => simp [Token.isEnd, Token.endAt] at h
  | cons c cs =>
    have hlt := Lexeme.length_rest_lt c cs
    have hlen := congrArg List.length hgap
    simp only [List.length_append] at hlen
    simp only
    omega

/-- The tokens up to the end, and the end token. -/
def tokens (s : Scanner) : List Token × Token :=
  if _h : s.next.1.isEnd then ([], s.next.1)
  else
    let (rest, last) := s.next.2.tokens
    (s.next.1 :: rest, last)
termination_by s.rest.length
decreasing_by exact s.length_rest_next (Bool.eq_false_iff.2 _h)

end Scanner

/-- The tokens of a text, the end token included. -/
def tokenize (source : String) : List Token :=
  let (tokens, last) := (Scanner.ofString source).tokens
  tokens ++ [last]

end CallGraph
