import CallGraph.Graph.Dot
import CallGraph.Proofs.Grammar.Name
import CallGraph.Proofs.Graph.Growth

/-!
# Reading DOT back

A DOT text is read by the rules of Graphviz.  Within a string a backslash takes the next character with it, so
that a quote behind it does not end the string.  A string that labels a record stands in braces, and bars
divide it into fields; a bar or a brace behind a backslash is a character like any other.

The same backslash serves both rules, and a text that has backslashes of its own can take the place of those
that are written before its bars and braces.

* `Dot.strings` — the strings of a text, `Dot.record` — the fields of a record;
* `Dot.escapesNext`, `Dot.Interferes` — texts with a backslash that acts on what is behind them, or on their
  own bars and braces;
* `strings_string`, `strings_node`, `strings_edge_eq` — the strings that are written are read one by one;
* `Graph.strings_toDot` — **all strings are read** as they were written unless the kind of an edge acts on its
  closing quote;
* `fields_text`, `fields_ne_of_interferes` — what is read of a text in a field;
* `Node.Named.record_label` — **a record has the fields** that were written unless the value of an attribute
  interferes.
-/

namespace CallGraph

namespace Dot

/-! ### The rules -/

/-- Whether the next character is escaped, behind one more character.  A backslash escapes the next character
unless it is escaped itself. -/
def escapes (escaped : Bool) (c : Char) : Bool := c = '\\' && !escaped

/-- Whether the text escapes the character behind it. -/
def escapesNext (text : List Char) : Bool := text.foldl escapes false

/-- The strings of a text, each with the characters between its quotes.  Within a string it is known whether
the next character is escaped, and what has been read of the string. -/
def strings : Option (Bool × List Char) → List Char → List (List Char)
  | _, [] => []
  | none, c :: cs => strings (if c = '"' then some (false, []) else none) cs
  | some (escaped, body), c :: cs =>
    if c = '"' && !escaped then body :: strings none cs
    else strings (some (escapes escaped c, body ++ [c])) cs

/-- A bar or a brace. -/
def isStructural (c : Char) : Bool := c = '|' || c = '\x7b' || c = '\x7d'

/-- The fields of a record up to the closing brace, which must be the last character.  It is known whether the
next character is escaped, and what has been read of the field.  There are no braces within a record. -/
def fields : Bool → List Char → List Char → Option (List (List Char))
  | _, _, [] => none
  | escaped, body, c :: cs =>
    if escaped = false ∧ c = '|' then (fields false [] cs).map (body :: ·)
    else if escaped = false ∧ c = '\x7d' then (if cs = [] then some [body] else none)
    else if escaped = false ∧ c = '\x7b' then none
    else fields (escapes escaped c) (body ++ [c]) cs

/-- The fields of a record, if the label is one. -/
def record : List Char → Option (List (List Char))
  | [] => none
  | c :: cs => if c = '\x7b' then fields false [] cs else none

/-- A backslash of the text, which begins escaped or not, acts on one of its bars and braces, or on what is
behind the text. -/
def InterferesFrom (escaped : Bool) (text : List Char) : Prop :=
  ∃ before behind, text = before ++ behind ∧ before.foldl escapes escaped = true ∧
    ∀ c ∈ behind.head?, isStructural c = true

/-- A backslash of the text acts on one of its bars and braces, or on what is behind the text. -/
def Interferes (text : List Char) : Prop := InterferesFrom false text

/-! ### What is written -/

/-- The text of a field. -/
def fieldText (entry : String × Value) : List Char :=
  (escape entry.1 ++ "=" ++ escape entry.2.display).toList

/-- The label of a node. -/
def label (n : Node) : List Char :=
  '\x7b' :: (n.attributes.entries.flatMap (fun entry => fieldText entry ++ ['|']) ++
    ((escape n.name).toList ++ ['\x7d']))

/-- The strings that are written for a node. -/
def nodeStrings (n : Node) : List (List Char) := [n.name.toList, label n]

/-- The label of an edge. -/
def edgeLabel (e : Edge) : List Char :=
  (toString e.details.sequence ++
    if 1 < e.details.repeats then " x" ++ toString e.details.repeats else "").toList

/-- The strings that are written for an edge. -/
def edgeStrings (e : Edge) : List (List Char) :=
  e.source.toList :: e.target.toList :: edgeLabel e ::
    if e.kind = defaultKind then [] else [(escape e.kind).toList]

section

variable {c : Char} {text rest body f : List Char} {others : List (List Char)} {escaped : Bool}

/-! ### Characters -/

@[simp] theorem toList_escape (text : String) :
    (escape text).toList = text.toList.flatMap escapeChar := by
  rw [escape, String.toList_ofList]

theorem escapes_of_ne (h : c ≠ '\\') : escapes escaped c = false := by
  simp [escapes, h]

theorem foldl_escapes_of_not_mem (h : '\\' ∉ text) : text.foldl escapes false = false := by
  induction text with
  | nil => rfl
  | cons c cs ih =>
    rw [List.mem_cons, not_or] at h
    rw [List.foldl_cons, escapes_of_ne (Ne.symm h.1), ih h.2]

theorem escapesNext_concat (h : c ≠ '\\') : escapesNext (text ++ [c]) = false := by
  rw [escapesNext, List.foldl_concat, escapes_of_ne h]

/-- A character is written as an apostrophe, behind a backslash, or as it is. -/
theorem escapeChar_cases (c : Char) :
    (c = '"' ∧ escapeChar c = ['\'']) ∨
    ((isStructural c = true ∨ c = '<' ∨ c = '>') ∧ c ≠ '"' ∧ c ≠ '\\' ∧ escapeChar c = ['\\', c]) ∨
    (c ≠ '"' ∧ isStructural c = false ∧ escapeChar c = [c]) := by
  unfold escapeChar isStructural
  split <;> simp_all

theorem escapeChar_of_isStructural (h : isStructural c = true) : escapeChar c = ['\\', c] := by
  rcases escapeChar_cases c with ⟨rfl, -⟩ | ⟨-, -, -, hchar⟩ | ⟨-, hc, -⟩
  · cases h
  · exact hchar
  · rw [hc] at h
    cases h

/-- What is written for a text escapes the next character if the text does. -/
theorem foldl_escapes_escapeChar (escaped : Bool) (text : List Char) :
    (text.flatMap escapeChar).foldl escapes escaped = text.foldl escapes escaped := by
  induction text generalizing escaped with
  | nil => rfl
  | cons c cs ih =>
    rw [List.flatMap_cons, List.foldl_append, ih, List.foldl_cons]
    congr 1
    rcases escapeChar_cases c with ⟨rfl, hchar⟩ | ⟨-, -, hc, hchar⟩ | ⟨-, -, hchar⟩ <;> rw [hchar]
    · simp [escapes]
    · rw [List.foldl_cons, List.foldl_cons, List.foldl_nil, escapes_of_ne hc, escapes_of_ne hc]
    · rfl

/-- No quote is written for a text. -/
theorem quote_not_mem_flatMap (text : List Char) : '"' ∉ text.flatMap escapeChar := by
  intro h
  obtain ⟨c, -, hc⟩ := List.mem_flatMap.1 h
  rcases escapeChar_cases c with ⟨-, hchar⟩ | ⟨-, hne, -, hchar⟩ | ⟨hne, -, hchar⟩ <;> rw [hchar] at hc
  · exact absurd hc (by decide)
  · exact absurd hc (by simp [Ne.symm hne])
  · exact absurd hc (by simp [Ne.symm hne])

/-! ### Texts that interfere -/

theorem interferesFrom_nil : InterferesFrom escaped [] ↔ escaped = true := by
  constructor
  · rintro ⟨before, behind, h, hescaped, -⟩
    obtain ⟨rfl, rfl⟩ := List.append_eq_nil_iff.1 h.symm
    exact hescaped
  · exact fun h => ⟨[], [], rfl, h, by simp⟩

theorem interferesFrom_cons : InterferesFrom escaped (c :: text) ↔
    (escaped = true ∧ isStructural c = true) ∨ InterferesFrom (escapes escaped c) text := by
  constructor
  · rintro ⟨before, behind, h, hescaped, hhead⟩
    cases before with
    | nil =>
      obtain rfl : c :: text = behind := h
      exact .inl ⟨hescaped, hhead c rfl⟩
    | cons d before =>
      obtain ⟨rfl, rfl⟩ := List.cons.inj h
      exact .inr ⟨before, behind, rfl, hescaped, hhead⟩
  · rintro (⟨hescaped, hc⟩ | ⟨before, behind, rfl, hescaped, hhead⟩)
    · exact ⟨[], c :: text, rfl, hescaped, by simpa using hc⟩
    · exact ⟨c :: before, behind, rfl, hescaped, hhead⟩

/-- Whether a backslash of the text acts on something is told by reading it once. -/
instance decidableInterferesFrom : (escaped : Bool) → (text : List Char) →
    Decidable (InterferesFrom escaped text)
  | _, [] => decidable_of_iff _ interferesFrom_nil.symm
  | escaped, c :: cs =>
    have := decidableInterferesFrom (escapes escaped c) cs
    decidable_of_iff _ interferesFrom_cons.symm

instance (text : List Char) : Decidable (Interferes text) := decidableInterferesFrom false text

/-- A text without backslashes does not interfere. -/
theorem not_interferes_of_not_mem (h : '\\' ∉ text) : ¬Interferes text := by
  rintro ⟨before, behind, rfl, hescaped, -⟩
  rw [foldl_escapes_of_not_mem fun hmem => h (List.mem_append_left _ hmem)] at hescaped
  cases hescaped

/-! ### Fields -/

/-- A character that does not stand for the structure of the record. -/
theorem fields_cons (h : escaped = false → isStructural c = false) :
    fields escaped body (c :: rest) = fields (escapes escaped c) (body ++ [c]) rest := by
  have hc : ∀ d, isStructural d = true → ¬(escaped = false ∧ c = d) := by
    rintro d hd ⟨hescaped, rfl⟩
    rw [h hescaped] at hd
    cases hd
  rw [fields, if_neg (hc _ (by decide)), if_neg (hc _ (by decide)), if_neg (hc _ (by decide))]

/-- **One character of a text** goes into the field, unless it is a bar or a brace that a backslash acts on. -/
theorem fields_escapeChar (h : ¬(escaped = true ∧ isStructural c = true)) :
    fields escaped body (escapeChar c ++ rest) =
      fields (escapes escaped c) (body ++ escapeChar c) rest := by
  rcases escapeChar_cases c with ⟨rfl, hchar⟩ | ⟨-, -, hc, hchar⟩ | ⟨-, hc, hchar⟩ <;> rw [hchar]
  · exact fields_cons fun _ => by decide
  · have hslash : fields escaped body ('\\' :: c :: rest) =
        fields (escapes escaped '\\') (body ++ ['\\']) (c :: rest) := fields_cons fun _ => by decide
    have hnext : escapes escaped '\\' = false → isStructural c = false := by
      intro hescaped
      cases escaped with
      | false => cases hescaped
      | true => simpa using h
    show fields escaped body ('\\' :: c :: rest) = _
    rw [hslash, fields_cons hnext, escapes_of_ne hc, escapes_of_ne hc, List.append_assoc]
    rfl
  · exact fields_cons fun _ => hc

/-- **A text that does not interfere** goes into the field. -/
theorem fields_text (h : ¬InterferesFrom escaped text) :
    fields escaped body (text.flatMap escapeChar ++ rest) =
      fields false (body ++ text.flatMap escapeChar) rest := by
  induction text generalizing escaped body with
  | nil =>
    rw [interferesFrom_nil, Bool.not_eq_true] at h
    rw [h, List.flatMap_nil, List.nil_append, List.append_nil]
  | cons c cs ih =>
    rw [interferesFrom_cons, not_or] at h
    rw [List.flatMap_cons, List.append_assoc, fields_escapeChar h.1, ih h.2, List.append_assoc]

/-- What has been read of a field is the beginning of it. -/
theorem prefix_of_fields {fs : List (List Char)} (h : fields escaped body text = some fs) :
    ∃ f others, fs = f :: others ∧ body <+: f := by
  induction text generalizing escaped body fs with
  | nil => cases h
  | cons c cs ih =>
    rw [fields] at h
    split at h
    · obtain ⟨others, -, rfl⟩ := Option.map_eq_some_iff.1 h
      exact ⟨body, others, rfl, List.prefix_refl _⟩
    split at h
    · obtain ⟨-, hfs⟩ := Option.ite_none_right_eq_some.1 h
      exact ⟨body, [], (Option.some.inj hfs).symm, List.prefix_refl _⟩
    split at h
    · cases h
    · obtain ⟨f, others, hfs, hprefix⟩ := ih h
      exact ⟨f, others, hfs, (List.prefix_append _ _).trans hprefix⟩

/-- A bare bar or brace ends the field, if there are fields at all. -/
theorem eq_of_fields_structural (hc : isStructural c = true)
    (h : fields false body (c :: rest) = some (f :: others)) : f = body := by
  rw [fields] at h
  split at h
  · obtain ⟨fs, -, hfs⟩ := Option.map_eq_some_iff.1 h
    exact (List.cons.inj hfs).1.symm
  split at h
  · obtain ⟨-, hfs⟩ := Option.ite_none_right_eq_some.1 h
    exact (List.cons.inj (Option.some.inj hfs)).1.symm
  split at h
  · cases h
  · rename_i hbar hclose hopen
    simp only [isStructural, Bool.or_eq_true, decide_eq_true_eq] at hc
    rcases hc with (rfl | rfl) | rfl
    · exact absurd ⟨rfl, rfl⟩ hbar
    · exact absurd ⟨rfl, rfl⟩ hopen
    · exact absurd ⟨rfl, rfl⟩ hclose

/-- **A text that interferes** makes another field, or none. -/
theorem fields_ne_of_interferes (h : InterferesFrom escaped text) (others : List (List Char)) :
    fields escaped body (text.flatMap escapeChar ++ '|' :: rest) ≠
      some ((body ++ text.flatMap escapeChar) :: others) := by
  induction text generalizing escaped body with
  | nil =>
    obtain rfl := interferesFrom_nil.1 h
    -- The bar is read as a part of the field.
    intro heq
    rw [List.flatMap_nil, List.nil_append, List.append_nil, fields_cons (by simp)] at heq
    obtain ⟨f, others, hfs, hprefix⟩ := prefix_of_fields heq
    obtain ⟨rfl, -⟩ := List.cons.inj hfs
    have hlength := hprefix.length_le
    rw [List.length_append, List.length_singleton] at hlength
    omega
  | cons c cs ih =>
    rw [List.flatMap_cons, List.append_assoc]
    by_cases hacts : escaped = true ∧ isStructural c = true
    · obtain ⟨rfl, hc⟩ := hacts
      -- The two backslashes stand for one, and so the character is bare.
      have hslash : fields true body ('\\' :: c :: (cs.flatMap escapeChar ++ '|' :: rest)) =
          fields false (body ++ ['\\']) (c :: (cs.flatMap escapeChar ++ '|' :: rest)) :=
        fields_cons (by simp)
      intro heq
      rw [escapeChar_of_isStructural hc] at heq
      have hlength := congrArg List.length (eq_of_fields_structural hc (hslash.symm.trans heq))
      simp only [List.length_append, List.length_cons, List.length_nil] at hlength
      omega
    · rw [fields_escapeChar hacts, ← List.append_assoc]
      exact ih ((interferesFrom_cons.1 h).resolve_left hacts)

end

/-! ### Records -/

section

variable {text : List Char} {c : Char}

/-- A name is written as it is. -/
theorem flatMap_escapeChar_of_isName (h : IsName text) : text.flatMap escapeChar = text := by
  obtain ⟨-, -, -, -, hall⟩ := h
  have hchars : ∀ c ∈ text, escapeChar c = [c] := by
    intro c hc
    have hpart := hall c hc
    rcases escapeChar_cases c with ⟨rfl, -⟩ | ⟨hspecial, -⟩ | ⟨-, -, hchar⟩
    · cases hpart
    · simp only [isStructural, Bool.or_eq_true, decide_eq_true_eq] at hspecial
      rcases hspecial with ((rfl | rfl) | rfl) | rfl | rfl <;> cases hpart
    · exact hchar
  rw [List.flatMap_congr hchars, List.flatMap_singleton']

theorem not_mem_of_isName (h : IsName text) (hc : isNamePart c = false) : c ∉ text := by
  obtain ⟨-, -, -, -, hall⟩ := h
  intro hmem
  rw [hall c hmem] at hc
  cases hc

end

theorem toList_fieldText (entry : String × Value) : fieldText entry =
    entry.1.toList.flatMap escapeChar ++ ['='] ++ entry.2.display.toList.flatMap escapeChar := by
  simp [fieldText]

/-- The key and the equals sign go into the field. -/
theorem fields_fieldText {entry : String × Value} (hkey : '\\' ∉ entry.1.toList) (rest : List Char) :
    fields false [] (fieldText entry ++ rest) =
      fields false (entry.1.toList.flatMap escapeChar ++ ['='])
        (entry.2.display.toList.flatMap escapeChar ++ rest) := by
  rw [toList_fieldText, List.append_assoc, List.append_assoc,
    fields_text (not_interferes_of_not_mem hkey), List.singleton_append, fields_cons fun _ => by decide]
  rfl

/-- **The fields of a node** are those that were written, unless the value of an attribute interferes. -/
theorem fields_entries {name : String} (hname : '\\' ∉ name.toList) {entries : List (String × Value)}
    (hkeys : ∀ entry ∈ entries, '\\' ∉ entry.1.toList) :
    fields false [] (entries.flatMap (fun entry => fieldText entry ++ ['|']) ++
        ((escape name).toList ++ ['\x7d'])) = some (entries.map fieldText ++ [(escape name).toList]) ↔
      ∀ entry ∈ entries, ¬Interferes entry.2.display.toList := by
  induction entries with
  | nil =>
    rw [List.flatMap_nil, List.nil_append, toList_escape, fields_text (not_interferes_of_not_mem hname)]
    simp [fields]
  | cons entry entries ih =>
    obtain ⟨hkey, hkeys⟩ := List.forall_mem_cons.1 hkeys
    rw [List.forall_mem_cons, ← ih hkeys, List.flatMap_cons, List.map_cons, List.cons_append,
      List.append_assoc, List.append_assoc, fields_fieldText hkey]
    generalize entries.flatMap (fun entry => fieldText entry ++ ['|']) ++
      ((escape name).toList ++ ['\x7d']) = more
    by_cases hvalue : Interferes entry.2.display.toList
    · refine iff_of_false (fun heq => ?_) (fun h => h.1 hvalue)
      rw [toList_fieldText] at heq
      exact fields_ne_of_interferes hvalue _ heq
    · rw [List.singleton_append, fields_text hvalue, ← toList_fieldText, fields, if_pos ⟨rfl, rfl⟩,
        Option.map_eq_some_iff]
      simp [hvalue]

/-! ### Strings -/

section

variable {text rest body f : List Char} {others : List (List Char)} {escaped : Bool}

theorem strings_outside (h : '"' ∉ text) : strings none (text ++ rest) = strings none rest := by
  induction text with
  | nil => rfl
  | cons c cs ih =>
    rw [List.mem_cons, not_or] at h
    rw [List.cons_append, strings, if_neg (Ne.symm h.1), ih h.2]

theorem strings_inside (h : '"' ∉ text) : strings (some (escaped, body)) (text ++ rest) =
    strings (some (text.foldl escapes escaped, body ++ text)) rest := by
  induction text generalizing escaped body with
  | nil => rw [List.nil_append, List.foldl_nil, List.append_nil]
  | cons c cs ih =>
    rw [List.mem_cons, not_or] at h
    rw [List.cons_append, strings, if_neg (by simp [Ne.symm h.1]), ih h.2, List.foldl_cons,
      List.append_assoc, List.singleton_append]

/-- A string goes up to its closing quote, if it has no quotes and does not act on that one. -/
theorem strings_string (h : '"' ∉ text) (hnext : escapesNext text = false) :
    strings none ('"' :: (text ++ '"' :: rest)) = text :: strings none rest := by
  rw [strings, if_pos rfl, strings_inside h, ← escapesNext, hnext, List.nil_append]
  simp [strings]

/-- What has been read of a string is the beginning of it. -/
theorem prefix_of_strings (h : strings (some (escaped, body)) text = f :: others) : body <+: f := by
  induction text generalizing escaped body with
  | nil => cases h
  | cons c cs ih =>
    rw [strings] at h
    split at h
    · obtain ⟨rfl, -⟩ := List.cons.inj h
      exact List.prefix_refl _
    · exact (List.prefix_append _ _).trans (ih h)

/-- **A string that acts on its closing quote** goes on behind it, or does not end. -/
theorem strings_ne_of_escapesNext (h : '"' ∉ text) (hnext : escapesNext text = true) :
    strings none ('"' :: (text ++ '"' :: rest)) ≠ text :: others := by
  rw [strings, if_pos rfl, strings_inside h, ← escapesNext, hnext, List.nil_append, strings, if_neg (by simp)]
  intro heq
  have hlength := (prefix_of_strings heq).length_le
  rw [List.length_append, List.length_singleton] at hlength
  omega

end

/-! ### Lines -/

theorem mem_edgeLabel {e : Edge} {c : Char} (h : c ∈ edgeLabel e) : c.isDigit = true ∨ c = ' ' ∨ c = 'x' := by
  have hdigits : ∀ n : Nat, c ∈ (toString n).toList → c.isDigit = true := by
    intro n hn
    rw [Nat.toString_eq_repr, Nat.toList_repr] at hn
    exact Nat.isDigit_of_mem_toDigits (by decide) (by decide) hn
  rw [edgeLabel, String.toList_append, List.mem_append] at h
  rcases h with h | h
  · exact .inl (hdigits _ h)
  · split at h
    · rw [String.toList_append, List.mem_append] at h
      rcases h with h | h
      · exact .inr (by simpa using h)
      · exact .inl (hdigits _ h)
    · cases h

end Dot

/-- The name of the node and the keys of its attributes are names. -/
structure Node.Named (n : Node) : Prop where
  /-- The name of the node. -/
  name : IsName n.name.toList
  /-- The keys of its attributes. -/
  keys : ∀ entry ∈ n.attributes.entries, IsName entry.1.toList

namespace Dot

variable {n : Node} {e : Edge} {rest : List Char}

theorem quote_not_mem_label (n : Node) : '"' ∉ label n := by
  have hfield : ∀ entry, '"' ∉ fieldText entry := by
    intro entry
    rw [toList_fieldText, List.mem_append, List.mem_append, not_or, not_or]
    exact ⟨⟨quote_not_mem_flatMap _, by decide⟩, quote_not_mem_flatMap _⟩
  rw [label, List.mem_cons, List.mem_append, List.mem_append, List.mem_flatMap, toList_escape]
  rintro (h | ⟨entry, -, h⟩ | h | h)
  · exact absurd h (by decide)
  · rcases List.mem_append.1 h with h | h
    · exact hfield entry h
    · exact absurd h (by decide)
  · exact quote_not_mem_flatMap _ h
  · exact absurd h (by decide)

/-- **The strings of a node** are read as they were written. -/
theorem strings_node (h : n.Named) :
    strings none ((node n).toList ++ rest) = nodeStrings n ++ strings none rest := by
  have hname := not_mem_of_isName h.name (c := '"') (by decide)
  have hslash := not_mem_of_isName h.name (c := '\\') (by decide)
  have hline : (node n).toList ++ rest = [' ', ' '] ++ ('"' :: (n.name.toList ++ '"' ::
      (" [label=".toList ++ ('"' :: (label n ++ '"' :: ("];\n".toList ++ rest)))))) := by
    simp [node, label, field, fieldText, List.flatMap_map]
  have hlabel : escapesNext (label n) = false := by
    rw [label, ← List.append_assoc, ← List.cons_append]
    exact escapesNext_concat (by decide)
  rw [hline, strings_outside (by decide), strings_string hname (foldl_escapes_of_not_mem hslash),
    strings_outside (by decide), strings_string (quote_not_mem_label n) hlabel, strings_outside (by decide)]
  rfl

theorem strings_nodes {nodes : List Node} (h : ∀ n ∈ nodes, n.Named) :
    strings none (nodes.flatMap (fun n => (node n).toList) ++ rest) =
      nodes.flatMap nodeStrings ++ strings none rest := by
  induction nodes with
  | nil => rfl
  | cons n nodes ih =>
    obtain ⟨hn, hnodes⟩ := List.forall_mem_cons.1 h
    rw [List.flatMap_cons, List.flatMap_cons, List.append_assoc, List.append_assoc, strings_node hn, ih hnodes]

/-- The ends of an edge and its label are read as they were written. -/
theorem strings_edge_eq (hsource : IsName e.source.toList) (htarget : IsName e.target.toList) :
    strings none ((edge e).toList ++ rest) = e.source.toList :: e.target.toList :: edgeLabel e ::
      strings none ((if e.kind = defaultKind then "" else ", xlabel=\"" ++ escape e.kind ++ "\"").toList ++
        ("];\n".toList ++ rest)) := by
  have hnames : ∀ {text : List Char}, IsName text → '"' ∉ text ∧ escapesNext text = false := fun h =>
    ⟨not_mem_of_isName h (by decide), foldl_escapes_of_not_mem (not_mem_of_isName h (by decide))⟩
  have hlabel : ∀ {c : Char}, ¬(c.isDigit = true ∨ c = ' ' ∨ c = 'x') → c ∉ edgeLabel e := fun hc h =>
    hc (mem_edgeLabel h)
  have hline : (edge e).toList ++ rest = [' ', ' '] ++ ('"' :: (e.source.toList ++ '"' ::
      (" -> ".toList ++ ('"' :: (e.target.toList ++ '"' :: (" [label=".toList ++ ('"' :: (edgeLabel e ++ '"' ::
        ((if e.kind = defaultKind then "" else ", xlabel=\"" ++ escape e.kind ++ "\"").toList ++
          ("];\n".toList ++ rest)))))))))) := by
    simp [edge, edgeLabel]
  rw [hline, strings_outside (by decide), strings_string (hnames hsource).1 (hnames hsource).2,
    strings_outside (by decide), strings_string (hnames htarget).1 (hnames htarget).2,
    strings_outside (by decide),
    strings_string (hlabel (by decide)) (foldl_escapes_of_not_mem (hlabel (by decide)))]

/-- **The strings of edges** are read as they were written, unless the kind of an edge acts on its closing
quote. -/
theorem strings_edges {edges : List Edge}
    (hends : ∀ e ∈ edges, IsName e.source.toList ∧ IsName e.target.toList) :
    strings none (edges.flatMap (fun e => (edge e).toList) ++ "\x7d\n".toList) = edges.flatMap edgeStrings ↔
      ∀ e ∈ edges, escapesNext e.kind.toList = false := by
  induction edges with
  | nil => exact iff_of_true (by decide) (List.forall_mem_nil _)
  | cons e edges ih =>
    obtain ⟨⟨hsource, htarget⟩, hends⟩ := List.forall_mem_cons.1 hends
    rw [List.forall_mem_cons, ← ih hends, List.flatMap_cons, List.flatMap_cons, List.append_assoc,
      strings_edge_eq hsource htarget]
    generalize edges.flatMap (fun e => (edge e).toList) ++ "\x7d\n".toList = more
    unfold edgeStrings
    by_cases hkind : e.kind = defaultKind
    · have hdefault : escapesNext e.kind.toList = false := by
        rw [hkind]
        decide
      rw [if_pos hkind, if_pos hkind, String.toList_empty, List.nil_append, strings_outside (by decide)]
      simp [hdefault]
    · have hline : (", xlabel=\"" ++ escape e.kind ++ "\"").toList ++ ("];\n".toList ++ more) =
          ", xlabel=".toList ++ ('"' :: ((escape e.kind).toList ++ '"' :: ("];\n".toList ++ more))) := by
        simp
      have hquote : '"' ∉ (escape e.kind).toList := by
        rw [toList_escape]
        exact quote_not_mem_flatMap _
      have hnext : escapesNext (escape e.kind).toList = escapesNext e.kind.toList := by
        rw [toList_escape]
        exact foldl_escapes_escapeChar false _
      rw [if_neg hkind, if_neg hkind, hline, strings_outside (by decide)]
      cases hescapes : escapesNext e.kind.toList with
      | true =>
        refine iff_of_false (fun heq => ?_) (by simp)
        rw [hescapes] at hnext
        exact strings_ne_of_escapesNext hquote hnext (List.cons.inj (List.cons.inj (List.cons.inj heq).2).2).2
      | false =>
        rw [hescapes] at hnext
        rw [strings_string hquote hnext, strings_outside (by decide)]
        simp

end Dot

/-! ### Graphs -/

/-- The strings that are written for a graph. -/
def Graph.dotStrings (g : Graph) : List (List Char) :=
  g.nodes.flatMap Dot.nodeStrings ++ g.edges.flatMap Dot.edgeStrings

/-- **The strings of a graph** are read as they were written, unless the kind of an edge acts on its closing
quote. -/
theorem Graph.strings_toDot {g : Graph} (h : g.WellFormed) (hnodes : ∀ n ∈ g.nodes, n.Named) :
    Dot.strings none g.toDot.toList = g.dotStrings ↔
      ∀ e ∈ g.edges, Dot.escapesNext e.kind.toList = false := by
  have hnames : ∀ name ∈ g.names, IsName name.toList := by
    intro name hname
    obtain ⟨n, hn, rfl⟩ := List.mem_map.1 hname
    exact (hnodes n hn).name
  have hends : ∀ e ∈ g.edges, IsName e.source.toList ∧ IsName e.target.toList := fun e he =>
    ⟨hnames _ (h.source_mem he), hnames _ (h.target_mem he)⟩
  have htext : g.toDot.toList = "digraph fidi \x7b\n  node [shape=record];\n".toList ++
      (g.nodes.flatMap (fun n => (Dot.node n).toList) ++
        (g.edges.flatMap (fun e => (Dot.edge e).toList) ++ "\x7d\n".toList)) := by
    unfold toDot
    simp only [String.toList_append, String.toList_join, List.flatMap_map, List.append_assoc]
  rw [htext, Dot.strings_outside (by decide), Dot.strings_nodes hnodes, dotStrings,
    List.append_cancel_left_eq, Dot.strings_edges hends]

/-- **The label of a node** is a record with one field for each attribute and one for the name, unless the
value of an attribute interferes. -/
theorem Node.Named.record_label {n : Node} (h : n.Named) :
    Dot.record (Dot.label n) = some (n.attributes.entries.map Dot.fieldText ++ [n.name.toList]) ↔
      ∀ entry ∈ n.attributes.entries, ¬Dot.Interferes entry.2.display.toList := by
  have hname : (Dot.escape n.name).toList = n.name.toList := by
    rw [Dot.toList_escape, Dot.flatMap_escapeChar_of_isName h.name]
  have hslash : ∀ {text : List Char}, IsName text → '\\' ∉ text := fun h =>
    Dot.not_mem_of_isName h (by decide)
  have hfields := Dot.fields_entries (hslash h.name) fun entry hentry => hslash (h.keys entry hentry)
  rw [hname] at hfields
  rw [← hfields, Dot.label, Dot.record, if_pos rfl, hname]

end CallGraph
