/-!
# JSON

A `JsonValue` keeps the fields of an object in order.  `JsonValue.pretty` writes it with one item
or field on a line, indented by two spaces for each level; an empty list is `[]` and an empty object
a pair of braces.  Characters beyond ASCII are written as they are.
-/

namespace CallGraph

/-- A JSON value whose numbers are whole. -/
inductive JsonValue where
  /-- A truth value. -/
  | boolean (value : Bool)
  /-- A whole number. -/
  | number (value : Int)
  /-- A text. -/
  | text (content : String)
  /-- Values in order. -/
  | list (items : List JsonValue)
  /-- Named values in order. -/
  | object (fields : List (String × JsonValue))

namespace JsonValue

/-- The last two hexadecimal digits of a control character. -/
def controlDigits (n : Nat) : List Char :=
  [Nat.digitChar (n / 16), Nat.digitChar (n % 16)]

/-- One character of a quoted text. -/
def escapeChar (c : Char) : List Char :=
  match c with
  | '"' => ['\\', '"']
  | '\\' => ['\\', '\\']
  | '\x08' => ['\\', 'b']
  | '\x0c' => ['\\', 'f']
  | '\n' => ['\\', 'n']
  | '\r' => ['\\', 'r']
  | '\t' => ['\\', 't']
  | c => if c.toNat < 32 then '\\' :: 'u' :: '0' :: '0' :: controlDigits c.toNat else [c]

/-- A text in quotes. -/
def quote (text : String) : String :=
  "\"" ++ String.ofList (text.toList.flatMap escapeChar) ++ "\""

/-- A new line at a level. -/
def newLine (level : Nat) : String :=
  "\n" ++ String.ofList (List.replicate (2 * level) ' ')

mutual

/-- The value, its own lines at the given level. -/
def pretty (level : Nat) : JsonValue → String
  | boolean true => "true"
  | boolean false => "false"
  | number n => toString n
  | text content => quote content
  | list [] => "[]"
  | list (item :: items) =>
    "[" ++ newLine (level + 1) ++ pretty (level + 1) item ++ prettyItems (level + 1) items ++
      newLine level ++ "]"
  | object [] => "\x7b\x7d"
  | object ((key, value) :: fields) =>
    "\x7b" ++ newLine (level + 1) ++ quote key ++ ": " ++ pretty (level + 1) value ++
      prettyFields (level + 1) fields ++ newLine level ++ "\x7d"

/-- The items of a list behind the first one. -/
def prettyItems (level : Nat) : List JsonValue → String
  | [] => ""
  | item :: items => "," ++ newLine level ++ pretty level item ++ prettyItems level items

/-- The fields of an object behind the first one. -/
def prettyFields (level : Nat) : List (String × JsonValue) → String
  | [] => ""
  | (key, value) :: fields =>
    "," ++ newLine level ++ quote key ++ ": " ++ pretty level value ++ prettyFields level fields

end

/-- The value as a text of its own. -/
def render (value : JsonValue) : String := value.pretty 0

end JsonValue

end CallGraph
