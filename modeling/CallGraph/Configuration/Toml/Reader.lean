import CallGraph.Configuration.Basic
import CallGraph.Configuration.Toml.Scalar
import CallGraph.Configuration.Toml.Tree

/-!
# TOML documents

The notation of configuration files: headers of tables and assignments, one on a line.
`Document.ofToml?` reads a whole file and `Configuration.ofToml?` what it says about the processing
of units.  Nothing but the end of the input may follow a document, so a mistake anywhere spoils it.
So does nesting: neither the lists and tables of a value nor the parts of a key may go deeper than
`nestingLimit`.
-/

namespace CallGraph

namespace Toml

/-- Reads something at the front of the input, or fails. -/
abbrev Reader := StateT (List Char) Option

/-- How deep lists and tables may be nested in a value, and how many parts a key may have. -/
def nestingLimit : Nat := 80

/-- Reads with enough fuel for the input: no reader below is called again more than twice for a
character that is taken. -/
def fueled {α : Type} (reader : Nat → Reader α) : Reader α := fun input =>
  reader (2 * input.length + 2) input

/-! ### Characters and gaps -/

/-- The next character. -/
def next : Reader Char
  | c :: rest => some (c, rest)
  | [] => none

/-- Whether the given characters come next; they are taken if they do. -/
def accept (text : String) : Reader Bool := fun input =>
  if text.toList.isPrefixOf input then some (true, input.drop text.length)
  else some (false, input)

/-- The given characters, which must come next. -/
def demand (text : String) : Reader Unit := do
  if !(← accept text) then failure

/-- Spaces and tabs. -/
def blanks : Reader Unit := fun input =>
  some ((), input.dropWhile fun c => c = ' ' || c = '\t')

/-- Characters that may stand in comments and quoted texts: all but control characters, with the
exception of the tab. -/
def isPlain (c : Char) : Bool := c = '\t' || (32 ≤ c.toNat && c.toNat ≠ 127)

/-- A comment up to the end of its line, if there is one. -/
def comment : Reader Unit := fun input =>
  match input with
  | '#' :: rest => some ((), rest.dropWhile isPlain)
  | _ => some ((), input)

/-- Whether a line ends here; its end is taken. -/
def lineEnd : Reader Bool := do
  pure ((← accept "\n") || (← accept "\r\n"))

/-- Whether the input ends here. -/
def atEnd : Reader Bool := fun input => some (input.isEmpty, input)

/-- Blanks, comments and ends of lines. -/
def gap : Reader Unit := fueled lines
where
  /-- Blanks, comments and the ends of at most so many lines. -/
  lines : Nat → Reader Unit
    | 0 => failure
    | fuel + 1 => do
      blanks
      comment
      if ← lineEnd then lines fuel

/-! ### Quoted texts -/

/-- So many hexadecimal digits: the character that has them as its number. -/
def numbered (count : Nat) : Reader Char := fun input => do
  let digits := input.take count
  let values ← digits.mapM hexValue?
  let n := values.foldl (fun n d => 16 * n + d) 0
  if digits.length = count ∧ n.isValidChar then some (Char.ofNat n, input.drop count) else none

/-- The character that stands behind a backslash. -/
def escape : Reader Char := do
  match ← next with
  | 'b' => pure '\x08'
  | 'e' => pure '\x1b'
  | 't' => pure '\t'
  | 'n' => pure '\n'
  | 'f' => pure '\x0c'
  | 'r' => pure '\r'
  | '"' => pure '"'
  | '\\' => pure '\\'
  | 'x' => numbered 2
  | 'u' => numbered 4
  | 'U' => numbered 8
  | _ => failure

/-- A text in double quotes, behind the first one. -/
def quotedText : Nat → Reader (List Char)
  | 0 => failure
  | fuel + 1 => do
    match ← next with
    | '"' => pure []
    | '\\' =>
      let c ← escape
      pure (c :: (← quotedText fuel))
    | c => if isPlain c then pure (c :: (← quotedText fuel)) else failure

/-- A text in single quotes, behind the first one: every character stands for itself. -/
def literalText : Reader (List Char) := do
  let inside (c : Char) : Bool := isPlain c && c != '\''
  let text ← fun input => some (input.takeWhile inside, input.dropWhile inside)
  demand "'"
  pure text

/-- A backslash at the end of a line, behind the backslash. -/
def continuation : Reader Unit := do
  blanks
  if !(← lineEnd) then failure

/-- The rest of a text of several lines, up to the three quotes that end it; they may follow one or
two quotes of the text. -/
def skipLines (quote : String) (escapes : Bool) : Nat → Reader Unit
  | 0 => failure
  | fuel + 1 => do
    if ← accept (quote ++ quote ++ quote) then
      let _ ← accept quote
      let _ ← accept quote
    else
      match ← next with
      | '\n' => skipLines quote escapes fuel
      | '\r' =>
        demand "\n"
        skipLines quote escapes fuel
      | '\\' =>
        if escapes then continuation <|> discard escape
        skipLines quote escapes fuel
      | c => if isPlain c then skipLines quote escapes fuel else failure

/-! ### Keys -/

/-- Characters of a key without quotes. -/
def isKeyPart (c : Char) : Bool := c.isAlphanum || c = '_' || c = '-'

/-- One part of a key. -/
def keyPart : Reader String := do
  if ← accept "\"" then
    pure (String.ofList (← fueled quotedText))
  else if ← accept "'" then
    pure (String.ofList (← literalText))
  else
    let name ← fun input => some (input.takeWhile isKeyPart, input.dropWhile isKeyPart)
    if name.isEmpty then failure
    pure (String.ofList name)

/-- A key, its parts separated by dots. -/
def key : Reader (List String) := do
  let path ← fueled parts
  guard (path.length ≤ nestingLimit)
  pure path
where
  /-- At most so many parts. -/
  parts : Nat → Reader (List String)
    | 0 => failure
    | fuel + 1 => do
      let name ← keyPart
      blanks
      if ← accept "." then
        blanks
        pure (name :: (← parts fuel))
      else pure [name]

/-! ### Values -/

/-- A truth value, a number, a date or a time. -/
def scalar : Reader Document := fun input =>
  let (text, rest) := spanScalar input
  (scalar? text).map fun content => (content, rest)

mutual

/-- A value in which lists and tables are nested at most `depth` deep. -/
def value (depth : Nat) : Nat → Reader Document
  | 0 => failure
  | fuel + 1 => do
    if ← accept "\"\"\"" then
      fueled (skipLines "\"" true)
      pure .other
    else if ← accept "'''" then
      fueled (skipLines "'" false)
      pure .other
    else if ← accept "\"" then
      discard (fueled quotedText)
      pure .other
    else if ← accept "'" then
      discard literalText
      pure .other
    else if ← accept "[" then
      guard (0 < depth)
      pure (.list (← items (depth - 1) fuel))
    else if ← accept "\x7b" then
      guard (0 < depth)
      pure (.table (entriesToDocument (← fields (depth - 1) fuel [])))
    else scalar

/-- The values of a list, behind its bracket or a comma. -/
def items (depth : Nat) : Nat → Reader (List Document)
  | 0 => failure
  | fuel + 1 => do
    gap
    if ← accept "]" then return []
    let item ← value depth fuel
    gap
    if ← accept "," then
      pure (item :: (← items depth fuel))
    else
      demand "]"
      pure [item]

/-- The entries of a table in braces, behind the first one or a comma, added to the ones before. -/
def fields (depth : Nat) : Nat → Entries → Reader Entries
  | 0, _ => failure
  | fuel + 1, entries => do
    gap
    if ← accept "\x7d" then return entries
    let path ← key
    demand "="
    blanks
    let content ← value depth fuel
    let entries ← put content path entries
    gap
    if ← accept "," then fields depth fuel entries
    else
      demand "\x7d"
      pure entries

end

/-! ### Documents -/

/-- A header or an assignment: the header of the lines to follow and the entries so far. -/
def statement (header : List String) (entries : Entries) : Reader (List String × Entries) := do
  if ← accept "[[" then
    blanks
    let path ← key
    demand "]]"
    pure (path, ← append path entries)
  else if ← accept "[" then
    blanks
    let path ← key
    demand "]"
    pure (path, ← declare path entries)
  else
    let path ← key
    demand "="
    blanks
    let content ← fueled (value nestingLimit)
    pure (header, ← assign header path content entries)

/-- The statements up to the end of the input, added to the entries before. -/
def statements : Nat → List String → Entries → Reader Entries
  | 0, _, _ => failure
  | fuel + 1, header, entries => do
    gap
    if ← atEnd then return entries
    let (header, entries) ← statement header entries
    blanks
    comment
    if ← atEnd then return entries
    if !(← lineEnd) then failure
    statements fuel header entries

/-- A whole file, perhaps with a byte order mark in front. -/
def document : Reader Document := do
  let _ ← accept "\uFEFF"
  let entries ← fueled fun fuel => statements fuel [] []
  pure (.table (entriesToDocument entries))

end Toml

/-- The document that a TOML file holds. -/
def Document.ofToml? (text : String) : Option Document :=
  (Toml.document text.toList).map Prod.fst

/-- The configuration that a TOML file describes.  A list that goes on behind the last field of its
section does no harm there. -/
def Configuration.ofToml? (text : String) : Option Configuration :=
  (Document.ofToml? text).bind (ofDocument? .ignored)

end CallGraph
