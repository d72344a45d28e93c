import CallGraph.Unit.Execution

/-!
# Verbosity

How important log lines must be to be shown.
-/

namespace CallGraph

/-- The rank of a level, the most important one first. -/
def LogLevel.rank : LogLevel → Nat
  | error => 1
  | warn => 2
  | info => 3
  | debug => 4
  | trace => 5

/-- The last rank that is shown. -/
structure Verbosity where
  /-- The rank, zero if nothing is shown. -/
  rank : Nat
deriving DecidableEq

namespace Verbosity

/-- The verbosity up to a level. -/
def upTo (level : LogLevel) : Verbosity := ⟨level.rank⟩

/-- The verbosity of a name, in capital letters or small ones. -/
def ofName? (name : String) : Option Verbosity :=
  match name.toLower with
  | "off" => some ⟨0⟩
  | "error" => some (upTo .error)
  | "warn" => some (upTo .warn)
  | "info" => some (upTo .info)
  | "debug" => some (upTo .debug)
  | "trace" => some (upTo .trace)
  | _ => none

/-- Whether lines of a level are shown. -/
def shows (v : Verbosity) (level : LogLevel) : Bool := level.rank ≤ v.rank

end Verbosity

end CallGraph
