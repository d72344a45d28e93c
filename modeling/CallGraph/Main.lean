import CallGraph.CommandLine.Argument
import CallGraph.CommandLine.Run
import CallGraph.CommandLine.Verbosity

/-!
# The command line program

Looks at the files that a run asks for, and writes what the run answers.  All decisions are made by
`Options.ofArguments` and `Files.run`; only how a reportable looks is decided here.
-/

namespace CallGraph

/-- What the program has to say about its command line. -/
def usage : String :=
  unlines [
    "Usage: fidi [OPTIONS] <INPUT>",
    "",
    "Arguments:",
    "  <INPUT>  Path to the input file, or - for stdin",
    "",
    "Options:",
    "  -m, --mode <MODE>            Processing mode (app, lint) [default: app]",
    "  -f, --format <FORMAT>        Output format (text, json, dot) [default: text]",
    "  -o, --output <OUTPUT>        Write results to this file instead of standard output",
    "  -c, --config <CONFIG>        Path to configuration file (TOML)",
    "      --strict                 Treat the first syntax error as fatal",
    "      --log-level <LOG_LEVEL>  Log level (off, error, warn, info, debug, trace)",
    "                               [default: warn]",
    "  -h, --help                   Print help",
    "  -V, --version                Print version"]

/-- What is wrong with a command line, in one sentence. -/
def UsageError.message : UsageError → String
  | help => ""
  | version => "fidi 0.1.0"
  | missingInput => "the input is missing"
  | unexpected argument => "unexpected argument `" ++ argument ++ "`"
  | missingValue option => "a value is required for `" ++ option ++ "`"
  | flagValue flag => "`" ++ flag ++ "` takes no value"
  | repeated option => "`" ++ option ++ "` cannot be used twice"
  | badMode name => Mode.unknown name
  | badFormat name => "unknown format `" ++ name ++ "`, expected `text`, `json` or `dot`"

/-- Where the configuration of the user lies: in the directory for configurations, or else in the
home directory. -/
def userConfigurationPath? (configurations home : Option String) : Option String :=
  match configurations.filter (·.startsWith "/"), home with
  | some directory, _ => some (directory ++ "/fidi/config.toml")
  | none, some home => some (home ++ "/.config/fidi/config.toml")
  | none, none => none

/-- What a path leads to, without the content of a file. -/
def lookAt (p : Path) : IO (Option Entry) :=
  try
    let place ← IO.FS.realPath p.toText
    pure (some (if ← place.isDir then .directory else .file .empty))
  catch _ => pure none

/-- What a path leads to, with the content of a file that can be read. -/
def lookInto (p : Path) : IO (Option Entry) := do
  match ← lookAt p with
  | some (.file _) =>
    try
      pure (some (.file (← IO.FS.readBinFile p.toText)))
    catch _ => pure none
  | entry => pure entry

/-- All bytes up to the end of a stream, behind those read before. -/
partial def readToEnd (stream : IO.FS.Stream) (before : ByteArray) : IO ByteArray := do
  let bytes ← stream.read 65536
  if bytes.isEmpty then pure before else readToEnd stream (before ++ bytes)

/-- Looks at all files that a run may ask for. -/
def lookAround (o : Options) : IO Files := do
  let userConfiguration :=
    userConfigurationPath? (← IO.getEnv "XDG_CONFIG_HOME") (← IO.getEnv "HOME")
  let sources := (o.input :: Files.localConfiguration ::
    (o.configuration.toList ++ userConfiguration.toList)).map Path.ofText
  let targets := o.output.toList.map Path.ofText
  let found ← sources.mapM fun p => do pure (p, ← lookInto p)
  let around ← (targets ++ (sources ++ targets).flatMap Path.leading).mapM fun p => do
    pure (p, ← lookAt p)
  let standardInput ←
    if o.readsStandardInput then readToEnd (← IO.getStdin) .empty else pure .empty
  pure {
    entry := fun p => ((found ++ around).lookup p).join
    userConfiguration
    standardInput }

/-- A plain presentation of a reportable: a heading, with its positions and its help below. -/
def Reportable.plain (r : Reportable) : String :=
  let severity := (r.severity.map Severity.name).getD "error"
  let code := match r.code with
    | some code => "[" ++ code ++ "]"
    | none => ""
  let help := match r.help with
    | some help => ["  help: " ++ help]
    | none => []
  unlines ((severity ++ code ++ ": " ++ r.message) ::
    r.labels.map (fun label => "  " ++ label.display) ++ help)

/-- Writes an answer where it belongs. -/
def deliverAnswer (o : Options) (a : Answer) : IO Unit :=
  match o.output with
  | some path => IO.FS.writeFile path (a.output.render Reportable.plain)
  | none => IO.print (a.output.render Reportable.plain)

/-- Runs the program as a command line asks; the result is its exit code. -/
def runProgram (o : Options) : IO UInt32 := do
  let verbosity ← match Verbosity.ofName? o.logLevel with
    | some verbosity => pure verbosity
    | none =>
      IO.eprintln ("Invalid log level: " ++ o.logLevel ++ ". Using 'warn' instead.")
      pure (.upTo .warn)
  let files ← lookAround o
  match files.run o with
  | .ok a =>
    for (level, line) in a.logs do
      if verbosity.shows level then IO.eprintln (level.name ++ ": " ++ line)
    deliverAnswer o a
    pure (if a.completion = .clean then 0 else 1)
  | .error failure =>
    if verbosity.shows .error then
      IO.eprint (renderReportables Reportable.plain failure.reportables)
    pure 1

end CallGraph

open CallGraph in
/-- Runs the program. -/
def main (arguments : List String) : IO UInt32 := do
  match Options.ofArguments arguments with
  | .ok o => runProgram o
  | .error .help =>
    IO.print usage
    pure 0
  | .error .version =>
    IO.println UsageError.version.message
    pure 0
  | .error error =>
    IO.eprintln ("error: " ++ error.message)
    IO.eprint usage
    pure 2
