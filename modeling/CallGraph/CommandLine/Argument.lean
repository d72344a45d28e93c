import CallGraph.CommandLine.Options

/-!
# Arguments

A command line is a list of arguments.  An argument is a long option (`--name` or `--name=value`), a
short one (`-x`, `-xvalue` or `-x=value`), the separator `--`, behind which there are no options, or
plain.  A plain argument is the value of the option before it, if that still waits for one, and
else the input.

A value is only looked at when the next option or input comes, or at the end.  So if an argument
that means nothing follows a value that is wrong, the argument is the error that is reported.
-/

namespace CallGraph

/-! ### Names of options -/

/-- An option that takes a value. -/
inductive ValueOption where
  | mode
  | format
  | output
  | configuration
  | logLevel
deriving DecidableEq

/-- The long name of the option. -/
def ValueOption.name : ValueOption → String
  | mode => "--mode"
  | format => "--format"
  | output => "--output"
  | configuration => "--config"
  | logLevel => "--log-level"

/-- An option without a value. -/
inductive Flag where
  | strict
  | help
  | version
deriving DecidableEq

/-- The long name of the flag. -/
def Flag.name : Flag → String
  | strict => "--strict"
  | help => "--help"
  | version => "--version"

/-- What a name of an option stands for. -/
inductive Switch where
  /-- An option that takes a value. -/
  | valued (o : ValueOption)
  /-- An option that takes none. -/
  | flag (f : Flag)

/-- The option of a long name, the dashes left out. -/
def Switch.ofName? (name : List Char) : Option Switch :=
  match String.ofList name with
  | "mode" => some (.valued .mode)
  | "format" => some (.valued .format)
  | "output" => some (.valued .output)
  | "config" => some (.valued .configuration)
  | "log-level" => some (.valued .logLevel)
  | "strict" => some (.flag .strict)
  | "help" => some (.flag .help)
  | "version" => some (.flag .version)
  | _ => none

/-- The option of a letter. -/
def Switch.ofLetter? (letter : Char) : Option Switch :=
  match letter with
  | 'm' => some (.valued .mode)
  | 'f' => some (.valued .format)
  | 'o' => some (.valued .output)
  | 'c' => some (.valued .configuration)
  | 'h' => some (.flag .help)
  | 'V' => some (.flag .version)
  | _ => none

/-! ### Kinds of arguments -/

/-- What an argument looks like. -/
inductive Argument where
  /-- The separator: no options follow. -/
  | separator
  /-- A long option, perhaps with a value behind an equals sign. -/
  | long (name : List Char) (value : Option (List Char))
  /-- A short option, perhaps with a value right behind it. -/
  | short (letter : Char) (value : Option (List Char))
  /-- Neither of these. -/
  | plain

/-- The value that stands right behind a short option. -/
def attached (text : List Char) : Option (List Char) :=
  match text with
  | [] => none
  | '=' :: value => some value
  | value => some value

/-- Looks at an argument. -/
def Argument.ofString (argument : String) : Argument :=
  match argument.toList with
  | ['-', '-'] => .separator
  | '-' :: '-' :: text =>
    let isName (c : Char) : Bool := c != '='
    .long (text.takeWhile isName) (text.dropWhile isName).tail?
  | '-' :: letter :: text => .short letter (attached text)
  | _ => .plain

/-! ### Reading a command line -/

/-- What the arguments so far ask for. -/
structure Progress where
  /-- The input. -/
  input : Option String := none
  /-- The mode. -/
  mode : Option Mode := none
  /-- The format. -/
  format : Option Format := none
  /-- The file that the answer is written to. -/
  output : Option String := none
  /-- The file that holds the configuration. -/
  configuration : Option String := none
  /-- Whether the first mistake is fatal. -/
  strict : Bool := false
  /-- How important log lines must be to be shown. -/
  logLevel : Option String := none
  /-- The option met last, until its value is looked at. -/
  waiting : Option (ValueOption × Option String) := none
  /-- Whether the separator was met. -/
  separated : Bool := false

namespace Progress

/-- A value that is given for the first time. -/
def once {α : Type} (o : ValueOption) (current : Option α) (value : Except UsageError α) :
    Except UsageError (Option α) :=
  match current with
  | some _ => .error (.repeated o.name)
  | none => value.map some

/-- Looks at the value of an option. -/
def assign (p : Progress) (o : ValueOption) (text : String) : Except UsageError Progress := do
  match o with
  | .mode =>
    let mode := (Mode.ofName? text).elim (.error (.badMode text)) .ok
    pure { p with mode := ← once o p.mode mode }
  | .format =>
    let format := (Format.ofName? text).elim (.error (.badFormat text)) .ok
    pure { p with format := ← once o p.format format }
  | .output => pure { p with output := ← once o p.output (.ok text) }
  | .configuration => pure { p with configuration := ← once o p.configuration (.ok text) }
  | .logLevel => pure { p with logLevel := ← once o p.logLevel (.ok text) }

/-- Looks at the value of the option met last. -/
def settle (p : Progress) : Except UsageError Progress :=
  match p.waiting with
  | none => .ok p
  | some (o, none) => .error (.missingValue o.name)
  | some (o, some text) => { p with waiting := none }.assign o text

/-- Takes an option with the value right behind it, if there is one. -/
def takeOption (p : Progress) (o : ValueOption) (value : Option (List Char)) :
    Except UsageError Progress := do
  let p ← p.settle
  match value with
  | some text => p.assign o (String.ofList text)
  | none => pure { p with waiting := some (o, none) }

/-- Takes a flag. -/
def takeFlag (p : Progress) (f : Flag) : Except UsageError Progress := do
  let p ← p.settle
  match f with
  | .help => throw .help
  | .version => throw .version
  | .strict => if p.strict then throw (.repeated f.name) else pure { p with strict := true }

/-- Takes a plain argument. -/
def takePlain (p : Progress) (text : String) : Except UsageError Progress :=
  match p.waiting, p.separated, p.input with
  | some (o, none), false, _ => .ok { p with waiting := some (o, some text) }
  | _, _, some _ => .error (.unexpected text)
  | _, _, none => p.settle.map fun p => { p with input := some text }

/-- Takes the next argument. -/
def take (p : Progress) (argument : String) : Except UsageError Progress :=
  if p.separated then p.takePlain argument
  else
    match Argument.ofString argument with
    | .separator => .ok { p with separated := true }
    | .long name value =>
      match Switch.ofName? name, value with
      | none, _ => .error (.unexpected argument)
      | some (.valued o), value => p.takeOption o value
      | some (.flag f), none => p.takeFlag f
      | some (.flag f), some _ => .error (.flagValue f.name)
    | .short letter value =>
      match Switch.ofLetter? letter with
      | none => .error (.unexpected argument)
      | some (.valued o) => p.takeOption o value
      | some (.flag f) => p.takeFlag f
    | .plain => p.takePlain argument

/-- What all arguments together ask for. -/
def finish (p : Progress) : Except UsageError Options := do
  let p ← p.settle
  match p.input with
  | none => throw .missingInput
  | some input =>
    pure {
      input
      mode := p.mode.getD .app
      format := p.format.getD .text
      output := p.output
      configuration := p.configuration
      strict := p.strict
      logLevel := p.logLevel.getD "warn" }

end Progress

/-- What a command line asks for, the name of the program left out. -/
def Options.ofArguments (arguments : List String) : Except UsageError Options := do
  (← arguments.foldlM Progress.take {}).finish

end CallGraph
