import CallGraph.Source.Span

/-!
# Places in a text

A text starts at some location of a larger one.  A span is true in the text if it covers a piece of it
and knows where that piece starts.

* `Location.Reached`, `Span.Within` — locations of a text, and spans that are true in it;
* `Span.within_iff` — a span is true if it starts and stops at locations of the text;
* `Span.Within.shift` — what is true in a piece of a text is true in the text;
* `Span.TrueIn` — what it means for a whole source, in bytes.
-/

namespace CallGraph

theorem byteLength_pos {text : List Char} (h : text ≠ []) : 0 < byteLength text := by
  cases text with
  | nil => exact absurd rfl h
  | cons c text =>
    rw [byteLength_cons]
    exact Nat.add_pos_left c.utf8Size_pos _

/-- Of two beginnings of a text the one with fewer bytes is a beginning of the other. -/
theorem prefix_of_byteLength_le {text p q : List Char} (hp : p <+: text) (hq : q <+: text)
    (h : byteLength p ≤ byteLength q) : p <+: q := by
  rcases List.prefix_or_prefix_of_prefix hp hq with hprefix | ⟨rest, rfl⟩
  · exact hprefix
  · by_cases hrest : rest = []
    · simp [hrest]
    · have hpos := byteLength_pos hrest
      rw [byteLength_append] at h
      omega

section

variable {origin here : Location} {text before inner behind : List Char} {s t : Span}

/-- The location is one of the text that starts at `origin`. -/
def Location.Reached (origin : Location) (text : List Char) (here : Location) : Prop :=
  ∃ passed, passed <+: text ∧ here = origin.advance passed

/-- The span covers a piece of the text that starts at `origin`, and its location is where the piece
starts. -/
def Span.Within (origin : Location) (text : List Char) (s : Span) : Prop :=
  ∃ before inside behind, text = before ++ inside ++ behind ∧
    s = .ofText (origin.advance before) inside

theorem Location.Reached.shift (h : Reached (origin.advance before) inner here) :
    Reached origin (before ++ inner ++ behind) here := by
  obtain ⟨passed, ⟨rest, rfl⟩, rfl⟩ := h
  refine ⟨before ++ passed, ⟨rest ++ behind, ?_⟩, (origin.advance_append before passed).symm⟩
  simp only [List.append_assoc]

namespace Span

theorem stop_ofText (here : Location) (text : List Char) :
    (ofText here text).stop = (here.advance text).offset := by
  rw [Location.offset_advance]
  rfl

/-- **A span is true** in a text if it starts and stops at locations of the text. -/
theorem within_iff : s.Within origin text ↔
    Location.Reached origin text s.location ∧
      ∃ here, Location.Reached origin text here ∧ s.stop = here.offset := by
  constructor
  · rintro ⟨before, inside, behind, rfl, rfl⟩
    refine ⟨⟨before, ⟨inside ++ behind, ?_⟩, rfl⟩, _, ⟨before ++ inside, ⟨behind, rfl⟩, rfl⟩, ?_⟩
    · rw [List.append_assoc]
    · rw [stop_ofText, Location.advance_append]
  · rintro ⟨⟨p, hp, hlocation⟩, _, ⟨q, hq, rfl⟩, hstop⟩
    have hstart : s.start = origin.offset + byteLength p := by
      rw [start, hlocation, Location.offset_advance]
    rw [Location.offset_advance] at hstop
    have hle := s.start_le_stop
    obtain ⟨inside, rfl⟩ := prefix_of_byteLength_le hp hq (by omega)
    obtain ⟨behind, rfl⟩ := hq
    refine ⟨p, inside, behind, rfl, ?_⟩
    have hlength : s.length = byteLength inside := by
      rw [byteLength_append] at hstop
      unfold stop at hstop
      omega
    rw [ofText, ← hlocation, ← hlength]

theorem Within.location (h : s.Within origin text) : Location.Reached origin text s.location :=
  (within_iff.1 h).1

/-- What is true in a piece of a text is true in the text. -/
theorem Within.shift (h : s.Within (origin.advance before) inner) :
    s.Within origin (before ++ inner ++ behind) := by
  obtain ⟨hstart, here, hhere, hstop⟩ := within_iff.1 h
  exact within_iff.2 ⟨hstart.shift, here, hhere.shift, hstop⟩

/-- A true span does not leave the text. -/
theorem Within.bounds (h : s.Within origin text) :
    origin.offset ≤ s.start ∧ s.stop ≤ origin.offset + byteLength text := by
  obtain ⟨before, inside, behind, rfl, rfl⟩ := h
  have hstart : (ofText (origin.advance before) inside).start = origin.offset + byteLength before :=
    Location.offset_advance origin before
  rw [hstart, stop_ofText, Location.offset_advance, Location.offset_advance, byteLength_append,
    byteLength_append]
  omega

theorem within_empty (h : Location.Reached origin text here) : (empty here).Within origin text :=
  within_iff.2 ⟨h, here, h, rfl⟩

end Span

end

/-! ### Sources -/

/-- The span is true in the source: its ends are ends of characters, and its location is the one that
counting lines and columns of the text before it gives. -/
structure Span.TrueIn (source : String) (s : Span) : Prop where
  /-- It does not end before it starts. -/
  ordered : s.start ≤ s.stop
  /-- It does not leave the source. -/
  inside : s.stop ≤ source.utf8ByteSize
  /-- It starts at the boundary of a character. -/
  starts : String.Pos.Raw.IsValid source ⟨s.start⟩
  /-- It ends at the boundary of a character. -/
  stops : String.Pos.Raw.IsValid source ⟨s.stop⟩
  /-- It starts where passing the text before it leads. -/
  location_eq : ∀ before behind : String, source = before ++ behind →
    before.utf8ByteSize = s.start → s.location = Location.start.advance before.toList

theorem utf8ByteSize_ofList (text : List Char) :
    (String.ofList text).utf8ByteSize = byteLength text := by
  induction text with
  | nil => rfl
  | cons c text ih =>
    rw [String.ofList_cons, String.utf8ByteSize_append, String.utf8ByteSize_singleton, ih]
    rfl

theorem byteLength_toList (text : String) : byteLength text.toList = text.utf8ByteSize := by
  rw [← utf8ByteSize_ofList, String.ofList_toList]

/-- Behind the characters of a beginning of the source there is the boundary of a character. -/
theorem isValid_of_prefix {source : String} {passed : List Char} (h : passed <+: source.toList) :
    String.Pos.Raw.IsValid source ⟨byteLength passed⟩ := by
  obtain ⟨behind, hsource⟩ := h
  rw [String.Pos.Raw.isValid_iff_exists_append]
  refine ⟨String.ofList passed, String.ofList behind, ?_, ?_⟩
  · rw [← String.ofList_append, hsource, String.ofList_toList]
  · rw [← utf8ByteSize_ofList]
    rfl

theorem Location.Reached.isValid {source : String} {here : Location}
    (h : Reached .start source.toList here) : String.Pos.Raw.IsValid source ⟨here.offset⟩ := by
  obtain ⟨passed, hpassed, rfl⟩ := h
  rw [Location.offset_advance, Location.start, Nat.zero_add]
  exact isValid_of_prefix hpassed

/-- What is true in the characters of a source is true in the source. -/
theorem Span.Within.trueIn {source : String} {s : Span} (h : s.Within .start source.toList) :
    s.TrueIn source where
  ordered := s.start_le_stop
  inside := by
    have hbounds := h.bounds.2
    rw [byteLength_toList] at hbounds
    exact Nat.le_trans hbounds (Nat.le_of_eq (Nat.zero_add _))
  starts := h.location.isValid
  stops := by
    obtain ⟨-, here, hhere, hstop⟩ := Span.within_iff.1 h
    rw [hstop]
    exact hhere.isValid
  location_eq := by
    intro before behind hsource hsize
    obtain ⟨passed, hprefix, hlocation⟩ := h.location
    -- Two beginnings of the source with the same number of bytes are the same.
    have hbefore : before.toList <+: source.toList :=
      ⟨behind.toList, by rw [hsource, String.toList_append]⟩
    have hlength : byteLength before.toList = byteLength passed := by
      rw [byteLength_toList, hsize, Span.start, hlocation, Location.offset_advance]
      exact Nat.zero_add _
    obtain ⟨rest, hrest⟩ := prefix_of_byteLength_le hbefore hprefix (Nat.le_of_eq hlength)
    by_cases hne : rest = []
    · rw [hlocation, ← hrest, hne, List.append_nil]
    · have hpos := byteLength_pos hne
      rw [← hrest, byteLength_append] at hlength
      omega

end CallGraph
