import CallGraph.CommandLine.Path
import CallGraph.Configuration.Toml.Reader
import CallGraph.Service.Failure

/-!
# Files

`Files` is what a run can see of the files around it.  Reading, finding the configuration and
admitting a file to be written are functions of it, so a run depends on nothing else.

A path is followed name by name, and the first name that does not lead on decides how it fails:
there is nothing with that name, or it is that of a file and not of a directory.

The configuration is taken from the first of these places:

1. the file that the command line names, which must exist;
2. `fidi/config.toml` in the working directory, if it exists;
3. the configuration file of the user, if it exists;
4. the default configuration.
-/

namespace CallGraph

/-- What a path can lead to. -/
inductive Entry where
  /-- A file with its content. -/
  | file (content : ByteArray)
  /-- A directory. -/
  | directory

/-- What can be seen of the files. -/
structure Files where
  /-- What a path leads to, if all names but the last are those of directories. -/
  entry : Path → Option Entry
  /-- The path of the configuration file of the user, if there is a place for it. -/
  userConfiguration : Option String
  /-- What is waiting on standard input. -/
  standardInput : ByteArray := .empty

/-- What paths lead to where the places of all directories and files are known, and that of the
working directory.  A directory is also there if something in it is. -/
def entryIn (here : List String) (directories : List (List String))
    (files : List (List String × ByteArray)) (p : Path) : Option Entry :=
  let place := p.resolve here
  match files.lookup place with
  | some content => some (.file content)
  | none =>
    if (here :: directories ++ files.map Prod.fst).any place.isPrefixOf then some .directory
    else none

namespace Files

/-- The failure to find a file or the directory that it is in. -/
def notFound : Failure := .file "No such file or directory (os error 2)"

/-- The failure to treat a file as a directory. -/
def isNoDirectory : Failure := .file "Not a directory (os error 20)"

/-- The failure to treat a directory as a file. -/
def isNoFile : Failure := .file "Is a directory (os error 21)"

/-- The failure to look for a path that is too long. -/
def tooLong : Failure := .file "File name too long (os error 36)"

/-- The failure to look for a path with a character that no path has. -/
def noPath : Failure := .file "file name contained an unexpected NUL byte"

/-- The failure to read bytes as a text. -/
def notText : Failure := .file "stream did not contain valid UTF-8"

/-! ### Finding -/

/-- How many bytes a path may have. -/
def longestPath : Nat := 4095

/-- Whether a slash ends a path, so that it can only be that of a directory. -/
def endsInSlash (path : String) : Bool := path.toList.getLast? = some '/'

/-- The failure to find anything at a path, in a directory that is there. -/
def missing (p : Path) : Failure := if p.isOverlong then tooLong else notFound

/-- Demands that a path leads to a directory. -/
def demandDirectory (f : Files) (p : Path) : Except Failure Unit :=
  match f.entry p with
  | some .directory => .ok ()
  | some (.file _) => .error isNoDirectory
  | none => .error (missing p)

/-- The path that a text spells, if it is one and runs through directories only. -/
def walk (f : Files) (path : String) : Except Failure Path := do
  if path.toList.contains '\x00' then throw noPath
  if path.isEmpty then throw notFound
  if longestPath < path.utf8ByteSize then throw tooLong
  let p := Path.ofText path
  p.leading.forM f.demandDirectory
  pure p

/-- What a path leads to. -/
def find (f : Files) (path : String) : Except Failure Entry := do
  let p ← f.walk path
  match f.entry p with
  | some .directory => pure .directory
  | some (.file content) =>
    if endsInSlash path then throw isNoDirectory else pure (.file content)
  | none => throw (missing p)

/-- Whether a path leads to anything. -/
def holds (f : Files) (path : String) : Bool := (f.find path).isOk

/-! ### Reading and writing -/

/-- The text that some bytes encode. -/
def decode (bytes : ByteArray) : Except Failure String :=
  match String.fromUTF8? bytes with
  | some text => .ok text
  | none => .error notText

/-- The text in the file with a path. -/
def read (f : Files) (path : String) : Except Failure String := do
  match ← f.find path with
  | .file content => decode content
  | .directory => throw isNoFile

/-- Whether a file can be written, be it there or not. -/
def admits (f : Files) (path : String) : Except Failure Unit := do
  let p ← f.walk path
  if endsInSlash path then throw isNoFile
  match f.entry p with
  | some .directory => throw isNoFile
  | some (.file _) => pure ()
  | none => if p.isOverlong then throw tooLong

/-! ### Configurations -/

/-- The configuration file that is looked for in the working directory. -/
def localConfiguration : String := "fidi/config.toml"

/-- The configuration in the file with a path, which must exist. -/
def configurationAt (f : Files) (path : String) : Except Failure Configuration :=
  if f.holds path then do
    match Configuration.ofToml? (← f.read path) with
    | some c => .ok c
    | none => .error (.file "Failed to parse TOML configuration")
  else .error (.file ("Missing configuration file: " ++ path))

/-- The configuration for a run, in the file that the command line names or where it is looked
for. -/
def configuration (f : Files) (named : Option String) : Except Failure Configuration :=
  match named with
  | some path => f.configurationAt path
  | none =>
    let places := localConfiguration :: f.userConfiguration.toList
    match places.find? f.holds with
    | some path => f.configurationAt path
    | none => .ok {}

end Files

end CallGraph
