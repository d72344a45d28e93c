import CallGraph.Text.Visibility

/-!
# Characters in messages

A message quotes a single character in a form that is always visible: the usual short escapes,
the code point in braces for a character that shows nothing by itself, and the character itself
otherwise.
-/

namespace CallGraph

/-- The code point of a character in hexadecimal, in braces. -/
def codePointEscape (c : Char) : String :=
  "\\u\x7b" ++ String.ofList (Nat.toDigits 16 c.toNat) ++ "\x7d"

/-- How a message shows a character. -/
def visible (c : Char) : String :=
  match c with
  | '\x00' => "\\0"
  | '\t' => "\\t"
  | '\r' => "\\r"
  | '\n' => "\\n"
  | '\\' => "\\\\"
  | '"' => "\\\""
  | '\'' => "\\'"
  | _ => if isExtender c || isInvisible c then codePointEscape c else c.toString

end CallGraph
