import CallGraph.Configuration.Document

/-!
# Tables in TOML

The statements of a TOML document build a tree of tables.  A table comes about in one of three ways
(`Toml.Origin`), and that decides what later statements may add to it: a header may declare a table
that is only implied, a dotted key may extend a table that dotted keys have made, and nothing may
be assigned or declared twice.

* `Toml.declare` — a header `[a.b]`;
* `Toml.append` — a header `[[a.b]]`, which adds a table to a list of tables;
* `Toml.assign` — an assignment below a header.
-/

namespace CallGraph

namespace Toml

/-- How a table came about. -/
inductive Origin where
  /-- A header of a table inside it implies it. -/
  | implied
  /-- A header declares it. -/
  | declared
  /-- A dotted key runs through it. -/
  | dotted

/-- What a name stands for while the document is being read. -/
inductive Entry where
  /-- A value that is complete. -/
  | value (content : Document)
  /-- A table that may still grow. -/
  | table (origin : Origin) (entries : List (String × Entry))
  /-- A list of tables, the newest first. -/
  | tables (items : List (List (String × Entry)))

/-- The entries of a table. -/
abbrev Entries := List (String × Entry)

/-- Changes the entry of a name, or adds one at the end. -/
def alter (name : String) (change : Option Entry → Option Entry) : Entries → Option Entries
  | [] => (change none).map fun entry => [(name, entry)]
  | (key, entry) :: rest =>
    if key = name then (change (some entry)).map fun entry => (key, entry) :: rest
    else (alter name change rest).map ((key, entry) :: ·)

/-- Changes what the last name of a path stands for.  On the way, missing tables are implied, and a
list of tables stands for its newest one. -/
def alterAt (change : Option Entry → Option Entry) : List String → Entries → Option Entries
  | [], _ => none
  | [name], entries => alter name change entries
  | name :: path, entries =>
    let descend : Option Entry → Option Entry
      | none => (alterAt change path []).map (.table .implied)
      | some (.table origin inner) => (alterAt change path inner).map (.table origin)
      | some (.tables (newest :: older)) =>
        (alterAt change path newest).map fun newest => .tables (newest :: older)
      | some _ => none
    alter name descend entries

/-- Declares the table of a path, unless it was declared or filled before. -/
def declare (path : List String) (entries : Entries) : Option Entries :=
  let change : Option Entry → Option Entry
    | none => some (.table .declared [])
    | some (.table .implied inner) => some (.table .declared inner)
    | some _ => none
  alterAt change path entries

/-- Adds a table to the list of tables of a path. -/
def append (path : List String) (entries : Entries) : Option Entries :=
  let change : Option Entry → Option Entry
    | none => some (.tables [[]])
    | some (.tables items) => some (.tables ([] :: items))
    | some _ => none
  alterAt change path entries

/-- Assigns a value to a dotted key of a table. -/
def put (content : Document) : List String → Entries → Option Entries
  | [], _ => none
  | [name], entries =>
    let change : Option Entry → Option Entry
      | none => some (.value content)
      | some _ => none
    alter name change entries
  | name :: path, entries =>
    let change : Option Entry → Option Entry
      | none => (put content path []).map (.table .dotted)
      | some (.table .dotted inner) => (put content path inner).map (.table .dotted)
      | some _ => none
    alter name change entries

/-- Assigns a value to a dotted key below a header, none for the root table. -/
def assign (header key : List String) (content : Document) (entries : Entries) : Option Entries :=
  if header.isEmpty then put content key entries
  else
    let change : Option Entry → Option Entry
      | some (.table origin inner) => (put content key inner).map (.table origin)
      | some (.tables (newest :: older)) =>
        (put content key newest).map fun newest => .tables (newest :: older)
      | _ => none
    alterAt change header entries

mutual

/-- What the entry says once the document has been read. -/
def Entry.toDocument : Entry → Document
  | .value content => content
  | .table _ entries => .table (entriesToDocument entries)
  | .tables items => .list (itemsToDocument items).reverse

/-- What the entries of a table say. -/
def entriesToDocument : List (String × Entry) → List (String × Document)
  | [] => []
  | (name, entry) :: rest => (name, entry.toDocument) :: entriesToDocument rest

/-- What the tables of a list say. -/
def itemsToDocument : List (List (String × Entry)) → List Document
  | [] => []
  | entries :: rest => .table (entriesToDocument entries) :: itemsToDocument rest

end

end Toml

end CallGraph
