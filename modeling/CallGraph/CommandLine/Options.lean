import CallGraph.Unit.Session

/-!
# Options

What a command line asks for: the unit to process, what to do with it and where the answer goes.
Everything but the input has a default.
-/

namespace CallGraph

/-- How an answer is written. -/
inductive Format where
  /-- For people to read. -/
  | text
  /-- As a response in JSON. -/
  | json
  /-- As a graph in DOT. -/
  | dot
deriving DecidableEq

namespace Format

/-- The format in one word. -/
def name : Format → String
  | text => "text"
  | json => "json"
  | dot => "dot"

/-- The format of a name. -/
def ofName? (name : String) : Option Format :=
  match name with
  | "text" => some text
  | "json" => some json
  | "dot" => some dot
  | _ => none

end Format

/-- What a command line asks for. -/
structure Options where
  /-- The file that holds the unit, a lone `-` for standard input. -/
  input : String
  /-- What is done with the unit. -/
  mode : Mode := .app
  /-- How the answer is written. -/
  format : Format := .text
  /-- The file that the answer is written to, if not standard output. -/
  output : Option String := none
  /-- The file that holds the configuration, if it is not looked for. -/
  configuration : Option String := none
  /-- Whether the first mistake is fatal. -/
  strict : Bool := false
  /-- How important log lines must be to be shown. -/
  logLevel : String := "warn"
deriving DecidableEq

/-- Whether the unit is read from standard input. -/
def Options.readsStandardInput (o : Options) : Bool := o.input = "-"

/-- Why a command line asks for nothing to be processed. -/
inductive UsageError where
  /-- It asks for help. -/
  | help
  /-- It asks for the version. -/
  | version
  /-- It names no input. -/
  | missingInput
  /-- It holds something that means nothing there. -/
  | unexpected (argument : String)
  /-- An option comes without its value. -/
  | missingValue (option : String)
  /-- A flag comes with a value. -/
  | flagValue (flag : String)
  /-- An option comes twice. -/
  | repeated (option : String)
  /-- The mode does not exist. -/
  | badMode (name : String)
  /-- The format does not exist. -/
  | badFormat (name : String)
deriving DecidableEq

end CallGraph
