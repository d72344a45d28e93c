/-!
# Codes of findings

Every kind of finding has a `Code`, with a stable identifier such as `E202` and a description.
The hundreds digit groups them: tokens, statements, graph construction, checks.
-/

namespace CallGraph

/-- What a finding is about. -/
inductive Code where
  /-- A quoted text whose line ends before its closing quote. -/
  | unterminatedText
  /-- A character that starts no token. -/
  | unexpectedCharacter
  /-- A backslash before a character that cannot be escaped. -/
  | invalidEscape
  /-- Digits run into a name, or a number that is too large. -/
  | malformedNumber
  /-- A payload block that is never closed. -/
  | unterminatedPayload
  /-- A token that cannot stand where it does. -/
  | unexpectedToken
  /-- The input ends inside a statement. -/
  | unexpectedEnd
  /-- An edge names a node that is never declared. -/
  | unresolvedReference
  /-- A node declared a second time. -/
  | duplicateDeclaration
  /-- An edge declared a second time. -/
  | duplicateEdge
  /-- An edge option with a value that it cannot take. -/
  | invalidOption
  /-- An edge option that does not exist. -/
  | unknownOption
  /-- A setting assigned a second time. -/
  | reassignedSetting
  /-- An edge that names no source where none is implied. -/
  | missingSource
  /-- Nodes that call each other in a circle. -/
  | cycle
  /-- A node that no edge touches. -/
  | unusedNode
  /-- A payload too deep to be checked. -/
  | deepPayload
  /-- A response setting out of range. -/
  | invalidResponse
  /-- A node that cannot be reached although every node must be. -/
  | missingAddress
  /-- A port or a host name with a value that it cannot take. -/
  | invalidAddress
  /-- A delay or a timeout with a value that it cannot take. -/
  | invalidTiming
deriving DecidableEq

namespace Code

/-- All codes, by ascending identifier. -/
def all : List Code :=
  [unterminatedText, unexpectedCharacter, invalidEscape, malformedNumber, unterminatedPayload,
    unexpectedToken, unexpectedEnd,
    unresolvedReference, duplicateDeclaration, duplicateEdge, invalidOption, unknownOption,
    reassignedSetting, missingSource,
    cycle, unusedNode, deepPayload, invalidResponse, missingAddress, invalidAddress, invalidTiming]

/-- The identifier under which a finding is listed. -/
def id : Code → String
  | unterminatedText => "E001"
  | unexpectedCharacter => "E002"
  | invalidEscape => "E003"
  | malformedNumber => "E004"
  | unterminatedPayload => "E005"
  | unexpectedToken => "E100"
  | unexpectedEnd => "E101"
  | unresolvedReference => "E200"
  | duplicateDeclaration => "E201"
  | duplicateEdge => "E202"
  | invalidOption => "E203"
  | unknownOption => "E204"
  | reassignedSetting => "E205"
  | missingSource => "E206"
  | cycle => "E300"
  | unusedNode => "E301"
  | deepPayload => "E302"
  | invalidResponse => "E303"
  | missingAddress => "E304"
  | invalidAddress => "E305"
  | invalidTiming => "E306"

/-- What the code stands for, in a few words. -/
def description : Code → String
  | unterminatedText => "unterminated string literal"
  | unexpectedCharacter => "unexpected character"
  | invalidEscape => "invalid escape sequence"
  | malformedNumber => "malformed number"
  | unterminatedPayload => "unterminated payload"
  | unexpectedToken => "unexpected token"
  | unexpectedEnd => "unexpected end of input"
  | unresolvedReference => "unresolved reference"
  | duplicateDeclaration => "duplicate declaration"
  | duplicateEdge => "duplicate edge"
  | invalidOption => "invalid edge option value"
  | unknownOption => "unknown edge option"
  | reassignedSetting => "setting assigned more than once"
  | missingSource => "edge without a source"
  | cycle => "cycle detected"
  | unusedNode => "unused node"
  | deepPayload => "payload nesting too deep"
  | invalidResponse => "invalid response code"
  | missingAddress => "node without an address"
  | invalidAddress => "invalid address attribute"
  | invalidTiming => "invalid timing setting"

/-- The code listed under an identifier. -/
def ofId? (id : String) : Option Code :=
  all.find? fun code => code.id = id

theorem mem_all (code : Code) : code ∈ all := by
  cases code <;> decide

end Code

end CallGraph
