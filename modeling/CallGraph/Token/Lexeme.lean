import CallGraph.Text.Decimal
import CallGraph.Token.Basic

/-!
# Lexemes

A lexeme is the token at the front of a text.  Each recogniser below returns the characters that
it takes together with the ones that it leaves:

* `spanTrivia` — blanks (space, tab, carriage return, line feed) and comments, which start with
  `#` or `//` and end before the line feed;
* `numeral` — digits with an optional minus sign; a numeral that runs into a name is malformed as
  a whole;
* `quoted` — a text between quotes on one line;
* `block` — a payload, up to the brace that closes it; braces inside quoted texts do not count;
* `lexeme` — whichever of these the first character calls for.

Main statements:

* `Lexeme.text_append_rest` — the taken and the left characters of a lexeme make up the input;
* `Lexeme.text_ne_nil` — a lexeme takes at least one character, so a text holds finitely many.
-/

namespace CallGraph

/-! ### Character classes -/

/-- Blanks: space, tab, carriage return and line feed. -/
def isBlank (c : Char) : Bool :=
  c = ' ' || c = '\t' || c = '\r' || c = '\n'

/-- Characters that start a name: ASCII letters and the underscore. -/
def isNameStart (c : Char) : Bool :=
  c.isAlpha || c = '_'

/-- Characters that continue a name: ASCII letters, digits and the underscore. -/
def isNamePart (c : Char) : Bool :=
  c.isAlphanum || c = '_'

/-! ### Blanks and comments -/

/-- The blanks and comments at the front and the rest.  The flag tells whether the text starts
inside a comment. -/
def spanTrivia : Bool → List Char → List Char × List Char
  | _, [] => ([], [])
  | true, c :: cs =>
    let (gap, rest) := spanTrivia (c != '\n') cs
    (c :: gap, rest)
  | false, c :: cs =>
    if isBlank c then
      let (gap, rest) := spanTrivia false cs
      (c :: gap, rest)
    else if c = '#' || (c = '/' && cs.head? == some '/') then
      let (gap, rest) := spanTrivia true cs
      (c :: gap, rest)
    else ([], c :: cs)

/-! ### Lexemes -/

/-- What a recogniser found: a token kind, the characters taken and the characters left. -/
structure Lexeme where
  /-- What the taken characters say. -/
  kind : TokenKind
  /-- The characters taken. -/
  text : List Char
  /-- The characters left. -/
  rest : List Char

/-- A numeral: the digits at the front behind the sign that was read.  A numeral that runs into a
name is malformed as a whole. -/
def numeral (sign input : List Char) : Lexeme :=
  let digits := input.takeWhile Char.isDigit
  let rest := input.dropWhile Char.isDigit
  let tail := rest.takeWhile isNamePart
  let magnitude : Int := digitsValue digits
  let value := if sign.isEmpty then magnitude else -magnitude
  ⟨if tail.isEmpty && fitsSigned64 value then .number value else .invalid .malformedNumber,
    sign ++ digits ++ tail, rest.dropWhile isNamePart⟩

/-- The character that a backslash before `c` stands for. -/
def unescape? (c : Char) : Option Char :=
  match c with
  | 'n' => some '\n'
  | 't' => some '\t'
  | 'r' => some '\r'
  | '"' => some '"'
  | '\\' => some '\\'
  | _ => none

/-- The longest well-formed run of quoted characters: what it says, the run itself, and the rest,
which is empty or starts with a quote, a line feed or a backslash that escapes nothing. -/
def quotedRun : List Char → List Char × List Char × List Char
  | [] => ([], [], [])
  | c :: cs =>
    if c = '\\' then
      match cs with
      | [] => ([], [], [c])
      | e :: rest =>
        match unescape? e with
        | none => ([], [], c :: e :: rest)
        | some meant =>
          let (said, run, left) := quotedRun rest
          (meant :: said, c :: e :: run, left)
    else if c = '"' || c = '\n' then ([], [], c :: cs)
    else
      let (said, run, left) := quotedRun cs
      (c :: said, c :: run, left)

/-- What remains of a quoted text behind an invalid escape: everything up to the closing quote,
which is taken, or the end of the line, which is not.  The flag tells whether the next character
is escaped. -/
def quotedTail : Bool → List Char → List Char × List Char
  | _, [] => ([], [])
  | escaped, c :: cs =>
    if c = '\n' then ([], c :: cs)
    else if c = '"' && !escaped then ([c], cs)
    else
      let (taken, rest) := quotedTail (c = '\\' && !escaped) cs
      (c :: taken, rest)

/-- A quoted text, its opening quote already read. -/
def quoted (input : List Char) : Lexeme :=
  let (said, run, rest) := quotedRun input
  match rest with
  | '"' :: rest => ⟨.text (String.ofList said), '"' :: run ++ ['"'], rest⟩
  | '\\' :: rest =>
    match rest with
    | c :: after =>
      if c = '\n' then ⟨.invalid .unterminatedText, '"' :: run ++ ['\\'], rest⟩
      else
        let (taken, left) := quotedTail false after
        ⟨.invalid (.invalidEscape c), '"' :: run ++ '\\' :: c :: taken, left⟩
    | [] => ⟨.invalid .unterminatedText, '"' :: run ++ ['\\'], []⟩
  | _ => ⟨.invalid .unterminatedText, '"' :: run, rest⟩

/-- Where the scan of a payload stands with respect to quoted texts. -/
inductive Quotation where
  /-- Between quoted texts. -/
  | outside
  /-- Inside a quoted text. -/
  | inside
  /-- Inside a quoted text, behind a backslash. -/
  | escaped
deriving DecidableEq

/-- Where the scan stands behind one more character. -/
def Quotation.next (q : Quotation) (c : Char) : Quotation :=
  match q with
  | outside => if c = '"' then inside else outside
  | inside => if c = '\\' then escaped else if c = '"' then outside else inside
  | escaped => inside

/-- How many inner braces are open behind one more character.  Only braces outside quoted texts
count. -/
def Quotation.braces (q : Quotation) (opened : Nat) (c : Char) : Nat :=
  if q ≠ .outside then opened
  else if c = '\x7b' then opened + 1
  else if c = '\x7d' then opened - 1
  else opened

/-- The text up to the brace that closes the block, and the rest behind that brace, where `opened`
inner braces are open. -/
def blockBody (opened : Nat) (q : Quotation) : List Char → Option (List Char × List Char)
  | [] => none
  | c :: cs =>
    if opened = 0 ∧ q = .outside ∧ c = '\x7d' then some ([], cs)
    else
      (blockBody (q.braces opened c) (q.next c) cs).map fun (inner, rest) => (c :: inner, rest)

/-- A payload, its opening brace already read.  One that is never closed takes all there is. -/
def block (input : List Char) : Lexeme :=
  match blockBody 0 .outside input with
  | some (inner, rest) =>
    ⟨.payload (String.ofList inner), '\x7b' :: inner ++ ['\x7d'], rest⟩
  | none => ⟨.invalid .unterminatedPayload, '\x7b' :: input, []⟩

/-- The punctuation mark of a single character. -/
def punctuation? (c : Char) : Option TokenKind :=
  match c with
  | '.' => some .dot
  | '=' => some .equals
  | ',' => some .comma
  | '[' => some .leftBracket
  | ']' => some .rightBracket
  | ';' => some .semicolon
  | _ => none

/-- A punctuation mark, a name, or a character that starts no token. -/
def simple (c : Char) (cs : List Char) : Lexeme :=
  if c = '-' && cs.head? == some '>' then ⟨.arrow, ['-', '>'], cs.tail⟩
  else
    match punctuation? c with
    | some kind => ⟨kind, [c], cs⟩
    | none =>
      if isNameStart c then
        let name := c :: cs.takeWhile isNamePart
        ⟨.identifier (String.ofList name), name, cs.dropWhile isNamePart⟩
      else ⟨.invalid (.unexpectedCharacter c), [c], cs⟩

/-- The lexeme that starts with the character `c`. -/
def lexeme (c : Char) (cs : List Char) : Lexeme :=
  if c = '"' then quoted cs
  else if c = '\x7b' then block cs
  else if c.isDigit then numeral [] (c :: cs)
  else if c = '-' && cs.head?.any Char.isDigit then numeral ['-'] cs
  else simple c cs

/-! ### Nothing is lost -/

theorem spanTrivia_append (inComment : Bool) (input : List Char) :
    (spanTrivia inComment input).1 ++ (spanTrivia inComment input).2 = input := by
  fun_induction spanTrivia inComment input <;> simp_all

theorem quotedRun_append (input : List Char) :
    (quotedRun input).2.1 ++ (quotedRun input).2.2 = input := by
  fun_induction quotedRun input <;> simp_all

theorem quotedTail_append (escaped : Bool) (input : List Char) :
    (quotedTail escaped input).1 ++ (quotedTail escaped input).2 = input := by
  fun_induction quotedTail escaped input <;> simp_all

theorem blockBody_append {opened : Nat} {q : Quotation} {input inner rest : List Char}
    (h : blockBody opened q input = some (inner, rest)) : inner ++ '\x7d' :: rest = input := by
  induction input generalizing opened q inner with
  | nil => simp [blockBody] at h
  | cons c cs ih =>
    rw [blockBody] at h
    split at h
    case isTrue hc =>
      simp only [Option.some.injEq, Prod.mk.injEq] at h
      simp [← h.1, ← h.2, hc.2.2]
    case isFalse =>
      obtain ⟨⟨inner', rest'⟩, hb, he⟩ := Option.map_eq_some_iff.1 h
      obtain ⟨rfl, rfl⟩ := Prod.mk.inj he
      rw [List.cons_append, ih hb]

namespace Lexeme

theorem numeral_text_append_rest (sign input : List Char) :
    (numeral sign input).text ++ (numeral sign input).rest = sign ++ input := by
  simp only [numeral, List.append_assoc, List.takeWhile_append_dropWhile]

theorem quoted_text_append_rest (input : List Char) :
    (quoted input).text ++ (quoted input).rest = '"' :: input := by
  have hrun := quotedRun_append input
  unfold quoted
  generalize quotedRun input = r at hrun
  obtain ⟨said, run, rest⟩ := r
  simp only at hrun ⊢
  subst hrun
  split
  · simp
  · split
    · split
      · simp
      · next c after _ => simp [quotedTail_append false after]
    · simp
  · simp

theorem block_text_append_rest (input : List Char) :
    (block input).text ++ (block input).rest = '\x7b' :: input := by
  unfold block
  split
  next h => simp [blockBody_append h]
  next => simp

theorem simple_text_append_rest (c : Char) (cs : List Char) :
    (simple c cs).text ++ (simple c cs).rest = c :: cs := by
  unfold simple
  split
  case isTrue h =>
    simp only [Bool.and_eq_true, decide_eq_true_eq, beq_iff_eq] at h
    cases cs with
    | nil => simp at h
    | cons d cs => simp_all
  case isFalse =>
    split
    · simp
    · split <;> simp

/-- The characters taken and the characters left make up the input. -/
theorem text_append_rest (c : Char) (cs : List Char) :
    (lexeme c cs).text ++ (lexeme c cs).rest = c :: cs := by
  unfold lexeme
  split
  next h => rw [quoted_text_append_rest, h]
  split
  next h => rw [block_text_append_rest, h]
  split
  next => rw [numeral_text_append_rest, List.nil_append]
  split
  next h =>
    simp only [Bool.and_eq_true, decide_eq_true_eq] at h
    rw [numeral_text_append_rest, h.1, List.singleton_append]
  next => exact simple_text_append_rest c cs

theorem quoted_text_ne_nil (input : List Char) : (quoted input).text ≠ [] := by
  unfold quoted
  generalize quotedRun input = r
  obtain ⟨said, run, rest⟩ := r
  simp only
  split
  · simp
  · split
    · split <;> simp
    · simp
  · simp

/-- A lexeme takes at least one character. -/
theorem text_ne_nil (c : Char) (cs : List Char) : (lexeme c cs).text ≠ [] := by
  unfold lexeme
  split
  next => exact quoted_text_ne_nil cs
  split
  next => unfold block; split <;> simp
  split
  next h => simp [numeral, h]
  split
  next => simp [numeral]
  next =>
    unfold simple
    split
    next => simp
    split
    next => simp
    split <;> simp

theorem length_rest_lt (c : Char) (cs : List Char) :
    (lexeme c cs).rest.length < (c :: cs).length := by
  rw [← text_append_rest c cs, List.length_append]
  exact Nat.lt_add_of_pos_left (List.length_pos_iff.2 (text_ne_nil c cs))

end Lexeme

end CallGraph
