/-!
# Locations in a source text

A `Location` names one point of a text three ways at once: the line, the column and the byte
offset.  Lines and columns start at one, the offset at zero.

* `Location.step` passes one character: a line feed starts a new line, every other character
  takes one column, and the offset grows by the character's size in UTF-8;
* `Location.advance` passes a whole piece of text;
* `Location.advance_append` — passing two pieces in turn is passing their concatenation;
* `Location.offset_advance` — the offset grows by exactly the byte length of the text.
-/

namespace CallGraph

/-- The number of bytes that the characters take in UTF-8. -/
def byteLength : List Char → Nat
  | [] => 0
  | c :: text => c.utf8Size + byteLength text

@[simp] theorem byteLength_nil : byteLength [] = 0 := rfl

@[simp] theorem byteLength_cons (c : Char) (text : List Char) :
    byteLength (c :: text) = c.utf8Size + byteLength text := rfl

theorem byteLength_append (a b : List Char) :
    byteLength (a ++ b) = byteLength a + byteLength b := by
  induction a with
  | nil => exact (Nat.zero_add _).symm
  | cons c a ih =>
    rw [List.cons_append, byteLength_cons, byteLength_cons, ih, Nat.add_assoc]

/-- A point of a source text. -/
structure Location where
  /-- The line, counted from one. -/
  line : Nat
  /-- The column, counted in characters from one. -/
  column : Nat
  /-- The number of bytes before the point. -/
  offset : Nat
deriving DecidableEq

namespace Location

/-- The first point of a text. -/
def start : Location := ⟨1, 1, 0⟩

instance : Inhabited Location := ⟨start⟩

/-- The point behind one character. -/
def step (here : Location) (c : Char) : Location :=
  if c = '\n' then
    ⟨here.line + 1, 1, here.offset + c.utf8Size⟩
  else
    ⟨here.line, here.column + 1, here.offset + c.utf8Size⟩

/-- The point behind a piece of text that starts here. -/
def advance (here : Location) (text : List Char) : Location :=
  text.foldl step here

/-- The written form `line:column`. -/
def display (here : Location) : String :=
  toString here.line ++ ":" ++ toString here.column

@[simp] theorem advance_nil (here : Location) : here.advance [] = here := rfl

@[simp] theorem advance_cons (here : Location) (c : Char) (text : List Char) :
    here.advance (c :: text) = (here.step c).advance text := rfl

theorem advance_append (here : Location) (a b : List Char) :
    here.advance (a ++ b) = (here.advance a).advance b :=
  List.foldl_append

theorem offset_step (here : Location) (c : Char) :
    (here.step c).offset = here.offset + c.utf8Size := by
  unfold step
  split <;> rfl

theorem offset_advance (here : Location) (text : List Char) :
    (here.advance text).offset = here.offset + byteLength text := by
  induction text generalizing here with
  | nil => rfl
  | cons c text ih =>
    rw [advance_cons, ih, offset_step, byteLength_cons, Nat.add_assoc]

end Location

end CallGraph
