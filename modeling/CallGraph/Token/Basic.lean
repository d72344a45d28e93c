import CallGraph.Diagnostic.Basic
import CallGraph.Text.Escape

/-!
# Tokens

A `Token` is a word of the language with the text it was read from and its span.  A mistake within
a token makes a token too, of kind `TokenKind.invalid`, so that the reader of tokens decides
whether to report it and go on or to give up.
-/

namespace CallGraph

/-- What is wrong within a token. -/
inductive LexicalError where
  /-- A character that starts no token. -/
  | unexpectedCharacter (c : Char)
  /-- A quoted text that does not end on its line. -/
  | unterminatedText
  /-- A backslash before a character that cannot be escaped. -/
  | invalidEscape (c : Char)
  /-- Digits run into a name, or a number beyond 64 bits. -/
  | malformedNumber
  /-- A payload that does not end. -/
  | unterminatedPayload
deriving DecidableEq

namespace LexicalError

/-- The code under which the error is listed. -/
def code : LexicalError → Code
  | unexpectedCharacter _ => .unexpectedCharacter
  | unterminatedText => .unterminatedText
  | invalidEscape _ => .invalidEscape
  | malformedNumber => .malformedNumber
  | unterminatedPayload => .unterminatedPayload

/-- The error in one sentence. -/
def message : LexicalError → String
  | unexpectedCharacter c => "unexpected character `" ++ visible c ++ "`"
  | unterminatedText => "unterminated string literal"
  | invalidEscape c => "invalid escape sequence `\\" ++ visible c ++ "`"
  | malformedNumber => "malformed number"
  | unterminatedPayload => "unterminated payload"

/-- How to mend the error. -/
def help : LexicalError → String
  | unexpectedCharacter _ => "remove this character"
  | unterminatedText => "add closing `\"` before the end of the line"
  | invalidEscape _ => "valid escapes: `\\n`, `\\r`, `\\t`, `\\\\`, `\\\"`"
  | malformedNumber =>
    "numbers are signed 64-bit integers; quote values such as `\"8080abc\"`"
  | unterminatedPayload => "add the closing `\x7d` of the payload"

end LexicalError

/-- What a token is, with what was read. -/
inductive TokenKind where
  /-- A name. -/
  | identifier (name : String)
  /-- A quoted text, its escapes resolved. -/
  | text (content : String)
  /-- A whole number. -/
  | number (value : Int)
  /-- The text between the braces of a payload block. -/
  | payload (inner : String)
  | dot
  | arrow
  | equals
  | comma
  | leftBracket
  | rightBracket
  | semicolon
  /-- Nothing is left. -/
  | endOfInput
  /-- A mistake. -/
  | invalid (error : LexicalError)
deriving DecidableEq

/-- A word of the language. -/
structure Token where
  /-- What was read. -/
  kind : TokenKind
  /-- The exact text that it was read from. -/
  text : String
  /-- Where that text is. -/
  span : Span
deriving DecidableEq

namespace Token

/-- The token behind the last one. -/
def endAt (location : Location) : Token := ⟨.endOfInput, "", .empty location⟩

/-- Whether nothing is left. -/
def isEnd (t : Token) : Bool := t.kind = .endOfInput

/-- How a message names the token. -/
def display (t : Token) : String :=
  match t.kind with
  | .endOfInput => "end of input"
  | .payload _ => "payload block"
  | _ => "`" ++ t.text ++ "`"

end Token

end CallGraph
