/-!
# Configuration documents

A `Document` is what a configuration file says once its notation has been read.  Only the
distinctions that matter to a configuration are kept: everything that is no truth value, no whole
number, no table and no list is `Document.other`.

A section of a configuration is a table, or a list of its values in the order in which the section
lists its fields; fields at the end of the list may be left out.  Whether the list may go on behind
the last field depends on where the document comes from (`Surplus`).
-/

namespace CallGraph

/-- The content of a configuration file. -/
inductive Document where
  /-- A value explicitly left empty. -/
  | empty
  /-- A truth value. -/
  | boolean (value : Bool)
  /-- A whole number. -/
  | integer (value : Int)
  /-- Named values. -/
  | table (entries : List (String × Document))
  /-- Values in order. -/
  | list (items : List Document)
  /-- A value that no configuration field takes. -/
  | other

/-- What becomes of the values of a list that stand behind the last field of a section. -/
inductive Surplus where
  /-- They spoil the document. -/
  | refused
  /-- They are passed over, whatever they are. -/
  | ignored
deriving DecidableEq

namespace Document

instance : Inhabited Document := ⟨empty⟩

/-- The truth value. -/
def asBool? : Document → Option Bool
  | boolean b => some b
  | _ => none

/-- The number, if it is a natural one of at most 64 bits. -/
def asNatural? : Document → Option Nat
  | integer n => if 0 ≤ n ∧ n ≤ 0xFFFFFFFFFFFFFFFF then some n.toNat else none
  | _ => none

/-- The number, or nothing if it was left empty. -/
def asLimit? : Document → Option (Option Nat)
  | empty => some none
  | d => d.asNatural?.map some

/-- The fields of a section with the given names, each with its value if it has one. -/
def fields? (surplus : Surplus) (names : List String) : Document → Option (List (Option Document))
  | table entries => some (names.map fun name => entries.lookup name)
  | list items =>
    if surplus = .ignored ∨ items.length ≤ names.length then
      some (names.zipIdx.map fun (_, i) => items[i]?)
    else none
  | _ => none

/-- Reads a field; one without a value has its default. -/
def read {α : Type} (reader : Document → Option α) (default : α) : Option Document → Option α
  | none => some default
  | some d => reader d

end Document

end CallGraph
