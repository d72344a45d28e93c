/-!
# Decimal digits

The value of a run of decimal digits, most significant digit first, and the range of the values
that are kept.
-/

namespace CallGraph

/-- The value of a run of decimal digits. -/
def digitsValue (digits : List Char) : Nat :=
  digits.foldl (fun n d => 10 * n + (d.toNat - '0'.toNat)) 0

/-- Whether the value fits into 64 bits with a sign. -/
def fitsSigned64 (n : Int) : Bool :=
  -0x8000000000000000 ≤ n && n ≤ 0x7FFFFFFFFFFFFFFF

end CallGraph
