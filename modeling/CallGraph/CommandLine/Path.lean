/-!
# Paths

A `Path` leads to a file or a directory, name by name, from the root directory or from the working
directory.  All names but the last are those of directories (`Path.leading`).

`Path.resolve` is the place of a path: the names that lead there from the root, none of which is
`.` or `..`.
-/

namespace CallGraph

/-- A path. -/
structure Path where
  /-- Whether it starts at the root directory, and not at the working directory. -/
  isAbsolute : Bool
  /-- The names that lead on from there. -/
  names : List String
deriving DecidableEq

namespace Path

/-- The parts of a text between its slashes. -/
def parts : List Char → List (List Char)
  | [] => [[]]
  | c :: rest =>
    if c = '/' then [] :: parts rest
    else
      match parts rest with
      | [] => [[c]]
      | part :: others => (c :: part) :: others

/-- The path that a text spells; several slashes in a row count as one. -/
def ofText (text : String) : Path :=
  ⟨text.toList.head? = some '/', ((parts text.toList).filter (!·.isEmpty)).map String.ofList⟩

/-- The text of a path. -/
def toText (p : Path) : String :=
  if p.isAbsolute then "/" ++ "/".intercalate p.names
  else if p.names.isEmpty then "."
  else "/".intercalate p.names

/-- The directories that a path runs through, the one that it starts in first. -/
def leading (p : Path) : List Path :=
  (List.range p.names.length).map fun n => { p with names := p.names.take n }

/-- How many bytes the last name may have. -/
def longestName : Nat := 255

/-- Whether the last name is longer than that of any file. -/
def isOverlong (p : Path) : Bool := p.names.getLast?.any (longestName < ·.utf8ByteSize)

/-- One name further from a place. -/
def enter (place : List String) (name : String) : List String :=
  if name = "." then place
  else if name = ".." then place.dropLast
  else place ++ [name]

/-- The place of a path, where `here` is that of the working directory and all names but the last
are those of directories. -/
def resolve (here : List String) (p : Path) : List String :=
  p.names.foldl enter (if p.isAbsolute then [] else here)

end Path

end CallGraph
