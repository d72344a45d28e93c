import Mathlib.Data.Nat.Digits.Defs
import CallGraph.Value
import CallGraph.Proofs.Parser.Mistake
import CallGraph.Proofs.Token.Locality
import CallGraph.Proofs.Token.Tiling

/-!
# How numbers are read

A numeral is a run of digits, with a minus sign before it or without one.  It is a number if no name goes on
behind it and its value has 64 bits; else it is a mistake, together with the name.

* `IsNumeral`, `decimalValue`, `IsSigned64` — numerals, their values, and the values that are kept;
* `digitsValue_eq` — the value that is computed digit by digit is the one in the decimal system;
* `numeral_of_fits`, `numeral_of_not_fits` — **when a numeral is a number**, and what it is else;
* `Scanner.next_of_numeral` — a numeral is the next token behind blanks and comments;
* `exists_numeral_display` — each number is displayed as a numeral with its value;
* `numbers_read` — what becomes of **the numerals of every text**.
-/

namespace CallGraph

/-- A run of digits with an optional minus sign. -/
structure IsNumeral (sign digits : List Char) : Prop where
  /-- The sign. -/
  sign_eq : sign = [] ∨ sign = ['-']
  /-- There is a digit. -/
  digits_ne_nil : digits ≠ []
  /-- There are only digits. -/
  isDigit : ∀ c ∈ digits, c.isDigit = true

/-- The value of a numeral in the decimal system, in which the last digit counts once. -/
def decimalValue (sign digits : List Char) : Int :=
  let magnitude : Nat := Nat.ofDigits 10 (digits.reverse.map fun c => c.toNat - '0'.toNat)
  if sign = [] then magnitude else -magnitude

/-- The number has 64 bits with a sign. -/
def IsSigned64 (n : Int) : Prop := -0x8000000000000000 ≤ n ∧ n ≤ 0x7FFFFFFFFFFFFFFF

section

variable {sign digits behind text : List Char} {n : Int}

/-! ### Values -/

theorem fitsSigned64_iff : fitsSigned64 n = true ↔ IsSigned64 n := by
  simp [fitsSigned64, IsSigned64]

/-- The value that is computed from the first digit on is the one in the decimal system. -/
theorem digitsValue_eq (digits : List Char) :
    digitsValue digits = Nat.ofDigits 10 (digits.reverse.map fun c => c.toNat - '0'.toNat) := by
  rw [Nat.ofDigits_eq_foldr, List.foldr_map, List.foldr_reverse]
  unfold digitsValue
  congr 1
  funext n d
  exact Nat.add_comm _ _

theorem decimalValue_eq (sign digits : List Char) : decimalValue sign digits =
    if sign.isEmpty then (digitsValue digits : Int) else -(digitsValue digits : Int) := by
  unfold decimalValue
  rw [digitsValue_eq]
  simp only [List.isEmpty_iff]

/-! ### Names behind a numeral -/

theorem stops_isNamePart_iff (hdigit : Stops Char.isDigit behind) :
    Stops isNamePart behind ↔ Stops isNameStart behind := by
  refine forall₂_congr fun c hc => ?_
  rw [isNamePart_eq, hdigit c hc, Bool.false_or]

theorem takeWhile_eq_nil_iff_stops {p : Char → Bool} : text.takeWhile p = [] ↔ Stops p text := by
  refine ⟨fun h => ?_, fun h => (span_of_stops (List.forall_mem_nil _) h).1⟩
  have happend := List.takeWhile_append_dropWhile (p := p) (l := text)
  rw [h, List.nil_append] at happend
  exact stops_of_dropWhile happend

/-! ### Numerals -/

/-- **A number** is a numeral that no name follows and whose value has 64 bits. -/
theorem numeral_of_fits (h : IsNumeral sign digits) (hdigit : Stops Char.isDigit behind)
    (hname : Stops isNameStart behind) (hvalue : IsSigned64 (decimalValue sign digits)) :
    numeral sign (digits ++ behind) = ⟨.number (decimalValue sign digits), sign ++ digits, behind⟩ := by
  have hstops := (stops_isNamePart_iff hdigit).2 hname
  rw [numeral_of_stops h.isDigit hstops, ← decimalValue_eq, if_pos (fitsSigned64_iff.2 hvalue)]

/-- **Any other numeral** is a mistake, together with the name behind it. -/
theorem numeral_of_not_fits (h : IsNumeral sign digits) (hdigit : Stops Char.isDigit behind)
    (hnot : ¬(Stops isNameStart behind ∧ IsSigned64 (decimalValue sign digits))) :
    numeral sign (digits ++ behind) = ⟨.invalid .malformedNumber,
      sign ++ digits ++ behind.takeWhile isNamePart, behind.dropWhile isNamePart⟩ := by
  have hfails : ¬((behind.takeWhile isNamePart).isEmpty &&
      fitsSigned64 (decimalValue sign digits)) = true := by
    rw [Bool.and_eq_true, List.isEmpty_iff, takeWhile_eq_nil_iff_stops, stops_isNamePart_iff hdigit,
      fitsSigned64_iff]
    exact hnot
  rw [numeral_of_digits h.isDigit hdigit, ← decimalValue_eq, if_neg hfails]

-- There is one more number with a minus sign than without one.
example : (numeral ['-'] "9223372036854775808".toList).kind = .number (-9223372036854775808) ∧
    (numeral [] "9223372036854775808".toList).kind = .invalid .malformedNumber := by
  decide +kernel

/-- A numeral is what its first character calls for. -/
theorem IsNumeral.exists_lexeme (h : IsNumeral sign digits) (behind : List Char) :
    ∃ c cs, sign ++ digits ++ behind = c :: cs ∧ (c = '-' ∨ c.isDigit = true) ∧
      lexeme c cs = numeral sign (digits ++ behind) := by
  obtain ⟨d, digits, rfl⟩ := List.exists_cons_of_ne_nil h.digits_ne_nil
  have hd : d.isDigit = true := h.isDigit d List.mem_cons_self
  rcases h.sign_eq with rfl | rfl
  · have hquote : d ≠ '"' := by
      rintro rfl
      cases hd
    have hbrace : d ≠ '\x7b' := by
      rintro rfl
      cases hd
    refine ⟨d, digits ++ behind, rfl, .inr hd, ?_⟩
    rw [lexeme, if_neg hquote, if_neg hbrace, if_pos hd]
    rfl
  · refine ⟨'-', d :: (digits ++ behind), rfl, .inl rfl, ?_⟩
    have hsign : ('-' = '-' && (d :: (digits ++ behind)).head?.any Char.isDigit) = true := hd
    have hlexeme : lexeme '-' (d :: (digits ++ behind)) =
        if ('-' = '-' && (d :: (digits ++ behind)).head?.any Char.isDigit) = true
          then numeral ['-'] (d :: (digits ++ behind)) else simple '-' (d :: (digits ++ behind)) := rfl
    rw [hlexeme, if_pos hsign]
    rfl

/-- **A numeral** is the next token behind blanks and comments. -/
theorem Scanner.next_of_numeral {s : Scanner} {gap : List Char} (hgap : Trivia gap)
    (h : IsNumeral sign digits) (hrest : s.rest = gap ++ (sign ++ digits ++ behind)) :
    let found := numeral sign (digits ++ behind)
    s.next = (⟨found.kind, .ofList found.text, .ofText (s.position.advance gap) found.text⟩,
      ⟨s.source, found.rest, (s.position.advance gap).advance found.text⟩) := by
  obtain ⟨c, cs, hfront, hc, hlexeme⟩ := h.exists_lexeme behind
  have hstarts : ¬StartsGap (sign ++ digits ++ behind) := by
    rw [hfront]
    rintro (hblank | rfl | ⟨rfl, -⟩)
    · rcases hc with rfl | hdigit
      · exact absurd hblank (by decide)
      · simp only [List.mem_cons, List.not_mem_nil, or_false] at hblank
        rcases hblank with rfl | rfl | rfl | rfl <;> cases hdigit
    · exact absurd hc (by decide)
    · exact absurd hc (by decide)
  have hspan := spanTrivia_of_trivia hgap hstarts
  rw [← hrest, hfront] at hspan
  have hcons : (spanTrivia false s.rest).2 = c :: cs := congrArg Prod.snd hspan
  rw [next_of_cons hcons, hlexeme, hspan]

/-! ### Numbers that are displayed -/

theorem isNumeral_toDigits {sign : List Char} (hsign : sign = [] ∨ sign = ['-']) (n : Nat) :
    IsNumeral sign (Nat.toDigits 10 n) where
  sign_eq := hsign
  digits_ne_nil := Nat.toDigits_ne_nil
  isDigit c hc := Nat.isDigit_of_mem_toDigits (by decide) (Nat.le_refl 10) hc

theorem digitsValue_toDigits (n : Nat) : digitsValue (Nat.toDigits 10 n) = n :=
  Nat.ofDigitChars_ten_toDigits

/-- **A number is displayed** as a numeral with its value. -/
theorem exists_numeral_display (n : Int) : ∃ sign digits, IsNumeral sign digits ∧
    (Value.number n).display.toList = sign ++ digits ∧ decimalValue sign digits = n := by
  have hdisplay : (Value.number n).display = if 0 ≤ n then n.toNat.repr else "-" ++ (-n).toNat.repr := by
    rw [Value.display, Int.toString_eq_repr, Int.repr_eq_if]
  by_cases hn : 0 ≤ n
  · refine ⟨[], Nat.toDigits 10 n.toNat, isNumeral_toDigits (.inl rfl) _, ?_, ?_⟩
    · rw [hdisplay, if_pos hn, Nat.toList_repr, List.nil_append]
    · rw [decimalValue_eq, digitsValue_toDigits]
      exact Int.toNat_of_nonneg hn
  · refine ⟨['-'], Nat.toDigits 10 (-n).toNat, isNumeral_toDigits (.inr rfl) _, ?_, ?_⟩
    · rw [hdisplay, if_neg hn, String.toList_append, Nat.toList_repr]
      rfl
    · rw [decimalValue_eq, digitsValue_toDigits]
      have hmagnitude : ((-n).toNat : Int) = -n := Int.toNat_of_nonneg (by omega)
      show -((-n).toNat : Int) = n
      omega

end

/-- **Numbers are read exactly.**

* Where the scanner stands before a numeral, behind which there is no further digit, the next token is a
  number with the value of the numeral and covers the numeral, if and only if the text does not go on with a
  letter or an underscore and the value has 64 bits.
* Otherwise the next token is a mistake that covers the letters, digits and underscores behind the numeral,
  too, and every parse says so once.
* No later token starts before this one stops.
* Wherever a number of 64 bits is displayed and no letter, digit or underscore follows, it is read. -/
theorem numbers_read (origin : Location) (source : String) :
    let scanner := Scanner.startingAt origin source
    (∀ calls gap sign digits behind, Trivia gap → IsNumeral sign digits → Stops Char.isDigit behind →
      (scanner.after calls).rest = gap ++ (sign ++ digits ++ behind) →
      let here := (scanner.after calls).position.advance gap
      let value := decimalValue sign digits
      let text := sign ++ digits
      let run := text ++ behind.takeWhile isNamePart
      let fits := Stops isNameStart behind ∧ IsSigned64 value
      ∃ before token later, scanner.tokens.1 = before ++ token :: later ∧ before.length = calls ∧
        (token = ⟨.number value, .ofList text, .ofText here text⟩ ↔ fits) ∧
        (¬fits → token = ⟨.invalid .malformedNumber, .ofList run, .ofText here run⟩ ∧
          ∀ budget, (parse budget origin source).SaysOnce before ⟨token, .lexical .malformedNumber⟩) ∧
        ∀ t ∈ later, token.span.stop ≤ t.span.start) ∧
    ∀ n, IsSigned64 n → ∀ (s : Scanner) (gap behind : List Char), Trivia gap → Stops isNamePart behind →
      s.rest = gap ++ ((Value.number n).display.toList ++ behind) →
      s.next.1 = ⟨.number n, (Value.number n).display,
          .ofText (s.position.advance gap) (Value.number n).display.toList⟩ ∧
        s.next.2.rest = behind := by
  intro scanner
  refine ⟨fun calls gap sign digits behind hgap h hdigit hrest => ?_,
    fun n hn s gap behind hgap hstops hrest => ?_⟩
  · intro here value text run fits
    have hnext := Scanner.next_of_numeral hgap h hrest
    have hkind : (scanner.after calls).next.1.kind ≠ .endOfInput := by
      rw [hnext]
      exact (Lexeme.kind_numeral _ _).1
    obtain ⟨before, later, htokens, hlength, hlater⟩ := Scanner.exists_tokens_eq hkind
    have hnumber : fits →
        (scanner.after calls).next.1 = ⟨.number value, .ofList text, .ofText here text⟩ := by
      intro hfits
      rw [hnext, numeral_of_fits h hdigit hfits.1 hfits.2]
    have hmistake : ¬fits →
        (scanner.after calls).next.1 = ⟨.invalid .malformedNumber, .ofList run, .ofText here run⟩ := by
      intro hnot
      rw [hnext, numeral_of_not_fits h hdigit hnot]
    refine ⟨before, _, later, htokens, hlength, ⟨fun heq => ?_, hnumber⟩, fun hnot => ?_, hlater⟩
    · by_contra hnot
      rw [hmistake hnot] at heq
      cases heq
    · exact ⟨hmistake hnot, fun budget => saysOnce_parse budget htokens (congrArg Token.kind (hmistake hnot))⟩
  · obtain ⟨sign, digits, h, hdisplay, rfl⟩ := exists_numeral_display n
    have hdigit : Stops Char.isDigit behind := stops_isDigit hstops
    rw [hdisplay] at hrest
    rw [Scanner.next_of_numeral hgap h hrest,
      numeral_of_fits h hdigit ((stops_isNamePart_iff hdigit).1 hstops) hn, ← hdisplay, String.ofList_toList]
    exact ⟨rfl, rfl⟩

end CallGraph
