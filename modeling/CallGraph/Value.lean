/-!
# Attribute values

A value is a quoted text, a number or a bare word.  Texts and words both read as text, and only a
bare word or a number can be a truth value, so the quoted text `"true"` is not one.
-/

namespace CallGraph

/-- What may stand to the right of an equals sign. -/
inductive Value where
  /-- A quoted text, its escapes resolved. -/
  | text (content : String)
  /-- A whole number. -/
  | number (value : Int)
  /-- A bare word. -/
  | word (name : String)
deriving DecidableEq

namespace Value

/-- The characters of a text or a word. -/
def asText? : Value → Option String
  | text content => some content
  | word name => some name
  | number _ => none

/-- The number, if the value is one. -/
def asNumber? : Value → Option Int
  | number n => some n
  | _ => none

/-- The words `true` and `false` are truth values, and so is every number: zero is false. -/
def asBool? : Value → Option Bool
  | word name =>
    if name = "true" then some true
    else if name = "false" then some false
    else none
  | number n => some (n != 0)
  | text _ => none

/-- The written form, without quotes. -/
def display : Value → String
  | text content => content
  | word name => name
  | number n => toString n

end Value

end CallGraph
