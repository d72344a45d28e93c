import CallGraph.Source.Location

/-!
# Spans of a source text

A `Span` is a stretch of bytes that knows the location of its first byte.  It is kept as a
location and a length, so no span ends before it starts.

* `Span.union` covers two spans: it starts at the earlier of the two (the left one on a tie) and
  ends at the later end;
* `Located` pairs a value with the span that it was read from.
-/

namespace CallGraph

/-- A stretch of a source text. -/
structure Span where
  /-- Where the first byte is. -/
  location : Location
  /-- The number of bytes covered. -/
  length : Nat
deriving DecidableEq

namespace Span

/-- The span of no bytes at a location. -/
def empty (location : Location) : Span := ⟨location, 0⟩

instance : Inhabited Span := ⟨empty .start⟩

/-- The offset of the first byte. -/
def start (s : Span) : Nat := s.location.offset

/-- The offset behind the last byte. -/
def stop (s : Span) : Nat := s.start + s.length

/-- The span from a location up to an offset. -/
def upTo (location : Location) (stop : Nat) : Span :=
  ⟨location, stop - location.offset⟩

/-- The span of a piece of text that starts at the location. -/
def ofText (location : Location) (text : List Char) : Span :=
  ⟨location, byteLength text⟩

/-- Whether the span covers nothing. -/
def isEmpty (s : Span) : Bool := s.length == 0

/-- The smallest span that starts where one of the two starts and covers both. -/
def union (s t : Span) : Span :=
  upTo (if t.start < s.start then t.location else s.location) (max s.stop t.stop)

/-- The union of the spans that cover something, if there is one. -/
def cover? (spans : List Span) : Option Span :=
  match spans.filter fun s => !s.isEmpty with
  | [] => none
  | s :: rest => some (rest.foldl union s)

theorem start_le_stop (s : Span) : s.start ≤ s.stop :=
  Nat.le_add_right _ _

theorem start_union (s t : Span) : (s.union t).start = min s.start t.start := by
  rw [union]
  split
  case isTrue h => exact (Nat.min_eq_right (Nat.le_of_lt h)).symm
  case isFalse h => exact (Nat.min_eq_left (Nat.le_of_not_lt h)).symm

theorem stop_upTo {location : Location} {stop : Nat} (h : location.offset ≤ stop) :
    (upTo location stop).stop = stop :=
  Nat.add_sub_cancel' h

theorem stop_union (s t : Span) : (s.union t).stop = max s.stop t.stop := by
  rw [union]
  split
  · exact stop_upTo (Nat.le_trans t.start_le_stop (Nat.le_max_right _ _))
  · exact stop_upTo (Nat.le_trans s.start_le_stop (Nat.le_max_left _ _))

end Span

/-- A value and the span that it was read from. -/
structure Located (α : Type) where
  /-- What was read. -/
  value : α
  /-- Where it was read. -/
  span : Span
deriving DecidableEq

end CallGraph
