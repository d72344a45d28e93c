import CallGraph.Configuration.Document
import CallGraph.Text.Decimal

/-!
# Scalars in TOML

A scalar is written without blanks: a truth value, a number, or a date or time (which may have one
blank between its two parts).  Configurations only take truth values and whole numbers, so floats,
dates and times become `Document.other`; but one that is malformed spoils the document all the
same.
-/

namespace CallGraph

namespace Toml

/-! ### Digits -/

/-- Digits in groups, an underscore between two groups: the digits alone. -/
def ungroup? (isDigit : Char → Bool) : List Char → Option (List Char)
  | [] => none
  | [d] => if isDigit d then some [d] else none
  | d :: '_' :: rest => if isDigit d then (ungroup? isDigit rest).map (d :: ·) else none
  | d :: rest => if isDigit d then (ungroup? isDigit rest).map (d :: ·) else none

/-- The value of one hexadecimal digit. -/
def hexValue? (c : Char) : Option Nat :=
  if c.isDigit then some (c.toNat - '0'.toNat)
  else if 'a' ≤ c ∧ c ≤ 'f' then some (c.toNat - 'a'.toNat + 10)
  else if 'A' ≤ c ∧ c ≤ 'F' then some (c.toNat - 'A'.toNat + 10)
  else none

/-- The number that digits of a base up to sixteen spell, in groups or not. -/
def natural? (base : Nat) (text : List Char) : Option Nat := do
  let digits ← ungroup? (fun c => (hexValue? c).any (· < base)) text
  pure (digits.foldl (fun n d => base * n + (hexValue? d).getD 0) 0)

/-- A decimal number without superfluous zeros in front. -/
def decimalPart? (text : List Char) : Option Nat :=
  match text with
  | '0' :: _ :: _ => none
  | _ => natural? 10 text

/-- The text behind its sign, and whether the sign is a minus. -/
def unsign (text : List Char) : Bool × List Char :=
  match text with
  | '-' :: rest => (true, rest)
  | '+' :: rest => (false, rest)
  | _ => (false, text)

/-! ### Numbers -/

/-- Whether 64 bits hold the number, with its sign or without one. -/
def fitsWord (n : Int) : Bool := -9223372036854775808 ≤ n && n ≤ 18446744073709551615

/-- A whole number of at most 64 bits. -/
def integer? (text : List Char) : Option Int := do
  let value : Int ← match text with
    | '0' :: 'x' :: digits => (natural? 16 digits).map Int.ofNat
    | '0' :: 'o' :: digits => (natural? 8 digits).map Int.ofNat
    | '0' :: 'b' :: digits => (natural? 2 digits).map Int.ofNat
    | _ =>
      let (negative, digits) := unsign text
      (decimalPart? digits).map fun n => if negative then -(n : Int) else n
  if fitsWord value then some value else none

/-- Whether the text is the exponent of a float, its letter in front. -/
def isExponent (text : List Char) : Bool :=
  match text with
  | e :: rest => (e = 'e' || e = 'E') && (natural? 10 (unsign rest).2).isSome
  | [] => false

/-- Whether the text is a float: a decimal number with a fraction, an exponent or both, or one of
the two special names. -/
def isFloat (text : List Char) : Bool :=
  let body := (unsign text).2
  let inside (c : Char) : Bool := c.isDigit || c = '_'
  let behind := body.dropWhile inside
  body = "inf".toList || body = "nan".toList ||
    ((decimalPart? (body.takeWhile inside)).isSome &&
      match behind with
      | '.' :: fraction =>
        let power := fraction.dropWhile inside
        (natural? 10 (fraction.takeWhile inside)).isSome && (power.isEmpty || isExponent power)
      | _ => isExponent behind)

/-! ### Dates and times -/

/-- The number of days in a month. -/
def daysIn (year month : Nat) : Nat :=
  match month with
  | 2 => if year % 4 = 0 ∧ (year % 100 ≠ 0 ∨ year % 400 = 0) then 29 else 28
  | 4 | 6 | 9 | 11 => 30
  | _ => 31

/-- Whether the text is a date: year, month and day. -/
def isDate (text : List Char) : Bool :=
  match text with
  | [y₁, y₂, y₃, y₄, '-', m₁, m₂, '-', d₁, d₂] =>
    let year := digitsValue [y₁, y₂, y₃, y₄]
    let month := digitsValue [m₁, m₂]
    let day := digitsValue [d₁, d₂]
    [y₁, y₂, y₃, y₄, m₁, m₂, d₁, d₂].all Char.isDigit &&
      1 ≤ month && month ≤ 12 && 1 ≤ day && day ≤ daysIn year month
  | _ => false

/-- Whether the text is a time: hours and minutes, perhaps with seconds and a fraction. -/
def isTime (text : List Char) : Bool :=
  match text with
  | h₁ :: h₂ :: ':' :: m₁ :: m₂ :: seconds =>
    [h₁, h₂, m₁, m₂].all Char.isDigit && digitsValue [h₁, h₂] < 24 && digitsValue [m₁, m₂] < 60 &&
      match seconds with
      | [] => true
      | [':', s₁, s₂] => isSecond s₁ s₂
      | ':' :: s₁ :: s₂ :: '.' :: fraction =>
        isSecond s₁ s₂ && !fraction.isEmpty && fraction.all Char.isDigit
      | _ => false
  | _ => false
where
  /-- Whether the digits are those of a second, a leap second among them. -/
  isSecond (s₁ s₂ : Char) : Bool := s₁.isDigit && s₂.isDigit && digitsValue [s₁, s₂] ≤ 60

/-- Whether the text is the offset of a time zone. -/
def isOffset (text : List Char) : Bool :=
  match text with
  | [z] => z = 'Z' || z = 'z'
  | [sign, h₁, h₂, ':', m₁, m₂] =>
    (sign = '+' || sign = '-') && [h₁, h₂, m₁, m₂].all Char.isDigit &&
      digitsValue [h₁, h₂] < 24 && digitsValue [m₁, m₂] < 60
  | _ => false

/-- Whether the text is a date, a time, or a date and a time with or without an offset. -/
def isDateOrTime (text : List Char) : Bool :=
  let inside (c : Char) : Bool := c.isDigit || c = ':' || c = '.'
  isTime text || isDate text ||
    (isDate (text.take 10) &&
      match text.drop 10 with
      | mark :: clock =>
        let offset := clock.dropWhile inside
        (mark = 'T' || mark = 't' || mark = ' ') && isTime (clock.takeWhile inside) &&
          (offset.isEmpty || isOffset offset)
      | [] => false)

/-! ### Scalars -/

/-- Characters that a scalar is made of. -/
def isScalarPart (c : Char) : Bool :=
  c.isAlphanum || c = '+' || c = '-' || c = '_' || c = '.' || c = ':'

/-- The scalar that a text spells. -/
def scalar? (text : List Char) : Option Document :=
  if text = "true".toList then some (.boolean true)
  else if text = "false".toList then some (.boolean false)
  else
    match integer? text with
    | some n => some (.integer n)
    | none => if isFloat text || isDateOrTime text then some .other else none

/-- The characters of the scalar at the front and the rest.  A date takes the time behind a blank
with it. -/
def spanScalar (input : List Char) : List Char × List Char :=
  let front := input.takeWhile isScalarPart
  let rest := input.dropWhile isScalarPart
  match rest with
  | ' ' :: d :: behind =>
    if isDate front && d.isDigit then
      (front ++ ' ' :: (d :: behind).takeWhile isScalarPart, (d :: behind).dropWhile isScalarPart)
    else (front, rest)
  | _ => (front, rest)

end Toml

end CallGraph
