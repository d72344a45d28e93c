import CallGraph.Unit.Draft

/-!
# One option of an edge

An option is given under a key.  The key takes its value, or the option is refused.

* `OptionKey` — the keys that there are, `OptionKey.taken?` — what an option says under a key;
* `OptionReading.read_cases` — **what becomes of one option**, whatever has been read before;
* `details_read`, `payload_read` — what it changes, `noted`, `noted_cases` — what is found about it;
* `ofOptions_diagnostics`, `ofOptions_payload` — so what is found about all options, and what they leave alone.
-/

namespace CallGraph

open OptionReading

/-! ### Keys -/

/-- A key that options can be given under. -/
structure OptionKey (α : Type) where
  /-- What the key is called. -/
  name : String
  /-- What a value says, if the key takes it. -/
  take? : Value → Option α
  /-- What holds where nothing is said. -/
  fallback : α

namespace OptionKey

/-- The kind of the call. -/
def kind : OptionKey String := ⟨"kind", nonempty?, defaultKind⟩

/-- The stage of the call. -/
def sequence : OptionKey Nat := ⟨"sequence", positive?, 1⟩

/-- How often the call is made. -/
def repeats : OptionKey Nat := ⟨"repeat", positive?, 1⟩

variable {α : Type}

/-- What the option says under the key, if it is given under this one and the key takes its value. -/
def taken? (k : OptionKey α) (option : Assignment) : Option α :=
  if option.key.value = k.name then k.take? option.value.value else none

variable {k : OptionKey α} {option : Assignment}

theorem taken?_eq_some {x : α} : k.taken? option = some x ↔
    option.key.value = k.name ∧ k.take? option.value.value = some x := by
  rw [taken?, Option.ite_none_right_eq_some]

theorem taken?_eq_none : k.taken? option = none ↔
    (option.key.value = k.name → k.take? option.value.value = none) := by
  rw [taken?, ite_eq_right_iff]

/-- An option is given under one key only. -/
theorem taken?_of_other {β : Type} {x : α} (h : k.taken? option = some x) (other : OptionKey β)
    (hne : k.name ≠ other.name) : other.taken? option = none :=
  taken?_eq_none.2 fun hother => absurd ((taken?_eq_some.1 h).1.symm.trans hother) hne

end OptionKey

/-- The names of the keys. -/
def optionNames : List String := [OptionKey.kind.name, OptionKey.sequence.name, OptionKey.repeats.name]

/-- The option is given under a key that takes its value. -/
def Assignment.isTaken (option : Assignment) : Bool :=
  (OptionKey.kind.taken? option).isSome || (OptionKey.sequence.taken? option).isSome ||
    (OptionKey.repeats.taken? option).isSome

theorem Assignment.isTaken_eq_false_iff {option : Assignment} : option.isTaken = false ↔
    OptionKey.kind.taken? option = none ∧ OptionKey.sequence.taken? option = none ∧
      OptionKey.repeats.taken? option = none := by
  simp [isTaken, and_assoc]

/-! ### Values -/

theorem positive?_eq_some {v : Value} {n : Nat} :
    positive? v = some n ↔ v = .number n ∧ 1 ≤ n ∧ n ≤ 0xFFFFFFFF := by
  unfold positive?
  cases v with
  | number m =>
    simp only [Value.asNumber?, Option.ite_none_right_eq_some, Option.some.injEq, Value.number.injEq]
    omega
  | text content => simp [Value.asNumber?]
  | word name => simp [Value.asNumber?]

theorem nonempty?_eq_some {v : Value} {name : String} :
    nonempty? v = some name ↔ (v = .text name ∨ v = .word name) ∧ name ≠ "" := by
  unfold nonempty?
  cases v with
  | number m => simp [Value.asText?]
  | text content =>
    simp only [Value.asText?, Option.ite_none_left_eq_some, Option.some.injEq, Value.text.injEq,
      String.isEmpty_iff]
    grind
  | word content =>
    simp only [Value.asText?, Option.ite_none_left_eq_some, Option.some.injEq, Value.word.injEq,
      String.isEmpty_iff]
    grind

namespace OptionReading

/-! ### One option -/

/-- **What becomes of one option**: its key takes the value, or there is no such key, or the key refuses the
value.  What is refused changes nothing, and only a finding is noted. -/
theorem read_cases (option : Assignment) :
    (∃ name, OptionKey.kind.taken? option = some name ∧
      ∀ r, read r option = { r with details := r.details.withKind name }) ∨
    (∃ n, OptionKey.sequence.taken? option = some n ∧
      ∀ r, read r option = { r with details := r.details.withSequence n }) ∨
    (∃ n, OptionKey.repeats.taken? option = some n ∧
      ∀ r, read r option = { r with details := r.details.withRepeats n }) ∨
    option.isTaken = false ∧
      ((option.key.value ∉ optionNames ∧ ∀ r, read r option = r.note (unknown option)) ∨
        (option.key.value ∈ optionNames ∧
          ∃ expected, ∀ r, read r option = r.note (invalid option expected))) := by
  have hrefused : option.isTaken = false ↔
      (option.key.value = "kind" → nonempty? option.value.value = none) ∧
        (option.key.value = "sequence" → positive? option.value.value = none) ∧
          (option.key.value = "repeat" → positive? option.value.value = none) := by
    rw [Assignment.isTaken_eq_false_iff]
    exact and_congr OptionKey.taken?_eq_none
      (and_congr OptionKey.taken?_eq_none OptionKey.taken?_eq_none)
  rw [hrefused]
  unfold read
  dsimp only
  split
  case h_1 h =>
    cases htake : nonempty? option.value.value with
    | some name => exact .inl ⟨name, OptionKey.taken?_eq_some.2 ⟨h, htake⟩, fun _ => rfl⟩
    | none =>
      rw [h]
      exact .inr (.inr (.inr ⟨by simp, .inr ⟨by decide, _, fun _ => rfl⟩⟩))
  case h_2 h =>
    cases htake : positive? option.value.value with
    | some n => exact .inr (.inl ⟨n, OptionKey.taken?_eq_some.2 ⟨h, htake⟩, fun _ => rfl⟩)
    | none =>
      rw [h]
      exact .inr (.inr (.inr ⟨by simp, .inr ⟨by decide, _, fun _ => rfl⟩⟩))
  case h_3 h =>
    cases htake : positive? option.value.value with
    | some n => exact .inr (.inr (.inl ⟨n, OptionKey.taken?_eq_some.2 ⟨h, htake⟩, fun _ => rfl⟩))
    | none =>
      rw [h]
      exact .inr (.inr (.inr ⟨by simp, .inr ⟨by decide, _, fun _ => rfl⟩⟩))
  case h_4 hkind hsequence hrepeats =>
    have hunknown : option.key.value ∉ optionNames := by
      simp only [optionNames, List.mem_cons, List.not_mem_nil, or_false, not_or]
      exact ⟨hkind, hsequence, hrepeats⟩
    refine .inr (.inr (.inr ⟨⟨?_, ?_, ?_⟩, .inl ⟨hunknown, fun _ => rfl⟩⟩))
    · exact fun h => absurd h hkind
    · exact fun h => absurd h hsequence
    · exact fun h => absurd h hrepeats

/-- Each part of the details is what the option says under its key, or stays as it is. -/
theorem details_read (r : OptionReading) (option : Assignment) :
    (r.read option).details.kind = (OptionKey.kind.taken? option).getD r.details.kind ∧
      (r.read option).details.sequence = (OptionKey.sequence.taken? option).getD r.details.sequence ∧
      (r.read option).details.repeats = (OptionKey.repeats.taken? option).getD r.details.repeats := by
  rcases read_cases option with ⟨name, htaken, hread⟩ | ⟨n, htaken, hread⟩ | ⟨n, htaken, hread⟩ |
    ⟨hrefused, hread⟩
  · rw [hread, htaken, OptionKey.taken?_of_other htaken .sequence (by decide),
      OptionKey.taken?_of_other htaken .repeats (by decide)]
    exact ⟨rfl, rfl, rfl⟩
  · have hpositive := (positive?_eq_some.1 (OptionKey.taken?_eq_some.1 htaken).2).2.1
    rw [hread, htaken, OptionKey.taken?_of_other htaken .kind (by decide),
      OptionKey.taken?_of_other htaken .repeats (by decide)]
    exact ⟨rfl, Nat.max_eq_right hpositive, rfl⟩
  · have hpositive := (positive?_eq_some.1 (OptionKey.taken?_eq_some.1 htaken).2).2.1
    rw [hread, htaken, OptionKey.taken?_of_other htaken .kind (by decide),
      OptionKey.taken?_of_other htaken .sequence (by decide)]
    exact ⟨rfl, rfl, Nat.max_eq_right hpositive⟩
  · obtain ⟨hkind, hsequence, hrepeats⟩ := Assignment.isTaken_eq_false_iff.1 hrefused
    rw [hkind, hsequence, hrepeats]
    rcases hread with ⟨-, hread⟩ | ⟨-, expected, hread⟩ <;> rw [hread] <;> exact ⟨rfl, rfl, rfl⟩

theorem payload_read (r : OptionReading) (option : Assignment) :
    (r.read option).details.payload = r.details.payload := by
  rcases read_cases option with ⟨name, -, hread⟩ | ⟨n, -, hread⟩ | ⟨n, -, hread⟩ |
    ⟨-, ⟨-, hread⟩ | ⟨-, expected, hread⟩⟩ <;> rw [hread] <;> rfl

/-- What is found about one option. -/
def noted (option : Assignment) : List Diagnostic := (read {} option).diagnostics

theorem diagnostics_read (r : OptionReading) (option : Assignment) :
    (r.read option).diagnostics = r.diagnostics ++ noted option := by
  unfold noted
  rcases read_cases option with ⟨name, -, hread⟩ | ⟨n, -, hread⟩ | ⟨n, -, hread⟩ |
    ⟨-, ⟨-, hread⟩ | ⟨-, expected, hread⟩⟩ <;> rw [hread, hread]
  · exact (List.append_nil _).symm
  · exact (List.append_nil _).symm
  · exact (List.append_nil _).symm
  · rfl
  · rfl

/-- An option is noted precisely if it is refused. -/
theorem noted_cases (option : Assignment) :
    (option.isTaken = true ∧ noted option = []) ∨
      option.isTaken = false ∧
        ((option.key.value ∉ optionNames ∧ noted option = [unknown option]) ∨
          (option.key.value ∈ optionNames ∧ ∃ expected, noted option = [invalid option expected])) := by
  unfold noted
  rcases read_cases option with ⟨x, htaken, hread⟩ | ⟨x, htaken, hread⟩ | ⟨x, htaken, hread⟩ |
    ⟨hrefused, ⟨hunknown, hread⟩ | ⟨hknown, expected, hread⟩⟩ <;> rw [hread]
  · exact .inl ⟨by simp [Assignment.isTaken, htaken], rfl⟩
  · exact .inl ⟨by simp [Assignment.isTaken, htaken], rfl⟩
  · exact .inl ⟨by simp [Assignment.isTaken, htaken], rfl⟩
  · exact .inr ⟨hrefused, .inl ⟨hunknown, rfl⟩⟩
  · exact .inr ⟨hrefused, .inr ⟨hknown, expected, rfl⟩⟩

theorem mem_noted {option : Assignment} {finding : Diagnostic} (h : finding ∈ noted option) :
    finding = unknown option ∨ ∃ expected, finding = invalid option expected := by
  rcases noted_cases option with ⟨-, hnoted⟩ | ⟨-, ⟨-, hnoted⟩ | ⟨-, expected, hnoted⟩⟩ <;>
    rw [hnoted] at h
  · exact absurd h List.not_mem_nil
  · exact .inl (List.mem_singleton.1 h)
  · exact .inr ⟨expected, List.mem_singleton.1 h⟩

/-! ### All options -/

/-- The options are looked at one by one. -/
theorem ofOptions_diagnostics (options : List Assignment) :
    (ofOptions options).diagnostics = options.flatMap noted := by
  have hfold : ∀ r : OptionReading, (options.foldl read r).diagnostics =
      r.diagnostics ++ options.flatMap noted := by
    induction options with
    | nil => exact fun r => (List.append_nil _).symm
    | cons option options ih =>
      intro r
      rw [List.foldl_cons, ih, diagnostics_read, List.flatMap_cons, List.append_assoc]
  exact hfold {}

/-- What is found about the options is that there is no such key, or that the value is refused. -/
theorem mem_diagnostics {options : List Assignment} {finding : Diagnostic}
    (h : finding ∈ (ofOptions options).diagnostics) :
    ∃ option ∈ options, finding = unknown option ∨ ∃ expected, finding = invalid option expected := by
  rw [ofOptions_diagnostics] at h
  obtain ⟨option, hoption, hnoted⟩ := List.mem_flatMap.1 h
  exact ⟨option, hoption, mem_noted hnoted⟩

/-- Options send no payload. -/
theorem ofOptions_payload (options : List Assignment) :
    (ofOptions options).details.payload = none := by
  have hfold : ∀ r : OptionReading, (options.foldl read r).details.payload = r.details.payload := by
    induction options with
    | nil => exact fun _ => rfl
    | cons option options ih =>
      intro r
      rw [List.foldl_cons, ih, payload_read]
  exact hfold {}

end OptionReading

end CallGraph
