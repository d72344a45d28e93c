import CallGraph.Proofs.Unit.Reading

/-!
# What the options of an edge come to

Options may be given in any order, more than once, and with values that their keys do not take.

* `OptionKey.lastTaken` — the last value that a key takes, and `OptionKey.promised` — the last value, or the
  default if the key does not take that one;
* `OptionKey.lastTaken_eq_promised_iff` — **when these are the same**;
* `Refuses` — the finding about an option that is refused;
* `OptionReading.Follows`, `follows_ofOptions`, `refusals_ofOptions` — what all options come to;
* `edge_options_decided` — **an edge** goes by the last value that each key takes, and the options that are
  refused are reported one by one.
-/

namespace CallGraph

open OptionReading

/-! ### Keys -/

namespace OptionKey

variable {α : Type} (k : OptionKey α)

/-- The values given under the key, in order. -/
def given (options : List Assignment) : List Value :=
  (options.filter fun option => option.name = k.name).map fun option => option.value.value

/-- What the last value says that the key takes, or else the default. -/
def lastTaken (values : List Value) : α :=
  (values.filterMap k.take?).getLast?.getD k.fallback

/-- What the last value says, or else the default.  It is the default, too, if the key does not take the
last value, as the help text of the finding about it has it. -/
def promised (values : List Value) : α :=
  (values.getLast?.bind k.take?).getD k.fallback

theorem given_concat (options : List Assignment) (option : Assignment) :
    k.given (options ++ [option]) =
      k.given options ++ if option.name = k.name then [option.value.value] else [] := by
  unfold given
  rw [List.filter_append, List.filter_singleton, List.map_append]
  by_cases h : option.name = k.name <;> simp [h]

theorem lastTaken_concat (values : List Value) (v : Value) :
    k.lastTaken (values ++ [v]) = (k.take? v).getD (k.lastTaken values) := by
  unfold lastTaken
  rw [List.filterMap_append]
  cases h : k.take? v <;> simp [h]

theorem promised_concat (values : List Value) (v : Value) :
    k.promised (values ++ [v]) = (k.take? v).getD k.fallback := by
  simp [promised]

/-- One more option changes what the key says only if the key takes its value. -/
theorem lastTaken_given_concat (options : List Assignment) (option : Assignment) :
    k.lastTaken (k.given (options ++ [option])) =
      (k.taken? option).getD (k.lastTaken (k.given options)) := by
  show _ = (if option.name = k.name then k.take? option.value.value else none).getD _
  rw [given_concat]
  by_cases h : option.name = k.name
  · rw [if_pos h, if_pos h, lastTaken_concat]
  · rw [if_neg h, if_neg h, List.append_nil, Option.getD_none]

/-- **The promise is kept** unless the last value is refused and a value before it said something else than
the default. -/
theorem lastTaken_eq_promised_iff (values : List Value) :
    k.lastTaken values = k.promised values ↔
      ∀ before v, values = before ++ [v] → k.take? v = none → k.lastTaken before = k.fallback := by
  rcases List.eq_nil_or_concat' values with rfl | ⟨before, v, rfl⟩
  · simp [lastTaken, promised]
  · rw [lastTaken_concat, promised_concat]
    constructor
    · intro heq others w hsplit hrefused
      obtain ⟨rfl, rfl⟩ := List.append_singleton_inj.1 hsplit
      rwa [hrefused] at heq
    · intro h
      cases htake : k.take? v with
      | none => exact h before v rfl htake
      | some x => rfl

/-- The key says the default, or what one of the values says. -/
theorem lastTaken_mem (values : List Value) :
    k.lastTaken values = k.fallback ∨ ∃ v ∈ values, k.take? v = some (k.lastTaken values) := by
  unfold lastTaken
  cases hlast : (values.filterMap k.take?).getLast? with
  | none => exact .inl rfl
  | some x => exact .inr (List.mem_filterMap.1 (List.mem_of_getLast? hlast))

end OptionKey

/-! ### Refusals -/

/-- The finding is about the option that is refused: it points at the key and the value, and it is an error if
there is such a key, and else a warning. -/
structure Refuses (option : Assignment) (finding : Diagnostic) : Prop where
  /-- Nothing else is pointed at. -/
  labels_eq : ∃ message, finding.labels = [.primary option.span message]
  /-- An option under a key that there is has a value that cannot be used. -/
  invalid : option.name ∈ optionNames → finding.severity = .error ∧
    finding.code = some .invalidOption ∧ finding.help = some "the default is used instead"
  /-- Any other is not known. -/
  unknown : option.name ∉ optionNames → finding.severity = .warning ∧
    finding.code = some .unknownOption

namespace OptionReading

variable {r : OptionReading} {options : List Assignment} {option : Assignment}

/-- An option is noted precisely if it is refused. -/
theorem refuses_noted (option : Assignment) :
    (option.isTaken = true ∧ noted option = []) ∨
      (option.isTaken = false ∧ ∃ finding, noted option = [finding] ∧ Refuses option finding) := by
  rcases noted_cases option with htaken | ⟨hrefused, ⟨hunknown, hnoted⟩ | ⟨hknown, expected, hnoted⟩⟩
  · exact .inl htaken
  · exact .inr ⟨hrefused, _, hnoted, ⟨_, rfl⟩, fun hknown => absurd hknown hunknown, fun _ => ⟨rfl, rfl⟩⟩
  · exact .inr ⟨hrefused, _, hnoted, ⟨_, rfl⟩, fun _ => ⟨rfl, rfl, rfl⟩, fun hunknown => absurd hknown hunknown⟩

/-! ### All options -/

/-- The details say what the keys say. -/
structure Follows (options : List Assignment) (d : Details) : Prop where
  /-- The kind of the call. -/
  kind_eq : d.kind = OptionKey.kind.lastTaken (OptionKey.kind.given options)
  /-- The stage of the call. -/
  sequence_eq : d.sequence = OptionKey.sequence.lastTaken (OptionKey.sequence.given options)
  /-- How often the call is made. -/
  repeats_eq : d.repeats = OptionKey.repeats.lastTaken (OptionKey.repeats.given options)

/-- **One more option** is followed. -/
theorem Follows.read (h : Follows options r.details) (option : Assignment) :
    Follows (options ++ [option]) (r.read option).details := by
  obtain ⟨hkind, hsequence, hrepeats⟩ := r.details_read option
  constructor <;> rw [OptionKey.lastTaken_given_concat]
  · rw [hkind, h.kind_eq]
  · rw [hsequence, h.sequence_eq]
  · rw [hrepeats, h.repeats_eq]

/-- **All options** are followed. -/
theorem follows_ofOptions (options : List Assignment) :
    Follows options (ofOptions options).details := by
  induction options using List.reverseRecOn with
  | nil => exact ⟨rfl, rfl, rfl⟩
  | append_singleton options option ih =>
    rw [ofOptions, List.foldl_append]
    exact ih.read option

/-- **All options that are refused** are reported, one by one and in their order. -/
theorem refusals_ofOptions (options : List Assignment) :
    List.Forall₂ Refuses (options.filter fun option => !option.isTaken)
      (ofOptions options).diagnostics := by
  rw [ofOptions_diagnostics]
  induction options with
  | nil => exact .nil
  | cons option options ih =>
    rw [List.flatMap_cons]
    rcases refuses_noted option with ⟨htaken, hnoted⟩ | ⟨hrefused, finding, hnoted, hrefuses⟩ <;> rw [hnoted]
    · rw [List.filter_cons_of_neg (by rw [htaken]; decide)]
      exact ih
    · rw [List.filter_cons_of_pos (by rw [hrefused]; decide)]
      exact .cons hrefuses ih

end OptionReading

/-! ### Edges -/

/-- The value is the last one that the key takes, or else the default.  It is what is promised unless the
last option of the key is refused and one before it says something else than the default. -/
def OptionKey.Decides {α : Type} (k : OptionKey α) (options : List Assignment) (x : α) : Prop :=
  x = k.lastTaken (k.given options) ∧
    (x = k.promised (k.given options) ↔ ∀ before v, k.given options = before ++ [v] →
      k.take? v = none → k.lastTaken before = k.fallback)

/-- The details are those that the options decide. -/
structure Details.DecidedBy (options : List Assignment) (d : Details) : Prop where
  /-- The kind of the call. -/
  kind : OptionKey.kind.Decides options d.kind
  /-- The stage of the call. -/
  sequence : OptionKey.sequence.Decides options d.sequence
  /-- How often the call is made. -/
  repeats : OptionKey.repeats.Decides options d.repeats
  /-- The stage has 32 bits. -/
  sequence_range : 1 ≤ d.sequence ∧ d.sequence ≤ 0xFFFFFFFF
  /-- So has the number of calls. -/
  repeats_range : 1 ≤ d.repeats ∧ d.repeats ≤ 0xFFFFFFFF

theorem OptionKey.decides_lastTaken {α : Type} (k : OptionKey α) (options : List Assignment) :
    k.Decides options (k.lastTaken (k.given options)) :=
  ⟨rfl, k.lastTaken_eq_promised_iff _⟩

/-- A key that takes positive numbers only says a positive number. -/
theorem OptionKey.lastTaken_range {k : OptionKey Nat} (htake : k.take? = positive?)
    (hfallback : k.fallback = 1) (values : List Value) :
    1 ≤ k.lastTaken values ∧ k.lastTaken values ≤ 0xFFFFFFFF := by
  rcases k.lastTaken_mem values with heq | ⟨v, -, hv⟩
  · rw [heq, hfallback]
    decide
  · rw [htake] at hv
    exact (positive?_eq_some.1 hv).2

/-- **The details of an edge statement** are those that its options decide. -/
theorem EdgeStatement.decidedBy (s : EdgeStatement) : s.details.DecidedBy s.options := by
  have hdetails : s.details.kind = (ofOptions s.options).details.kind ∧
      s.details.sequence = (ofOptions s.options).details.sequence ∧
      s.details.repeats = (ofOptions s.options).details.repeats := by
    unfold EdgeStatement.details
    cases s.payload <;> exact ⟨rfl, rfl, rfl⟩
  obtain ⟨hkind, hsequence, hrepeats⟩ := hdetails
  have hfollows := follows_ofOptions s.options
  rw [hfollows.kind_eq] at hkind
  rw [hfollows.sequence_eq] at hsequence
  rw [hfollows.repeats_eq] at hrepeats
  constructor
  · exact hkind ▸ OptionKey.kind.decides_lastTaken s.options
  · exact hsequence ▸ OptionKey.sequence.decides_lastTaken s.options
  · exact hrepeats ▸ OptionKey.repeats.decides_lastTaken s.options
  · exact hsequence ▸ OptionKey.lastTaken_range rfl rfl _
  · exact hrepeats ▸ OptionKey.lastTaken_range rfl rfl _

/-- **The options of an edge** are decided key by key.

* A kind is a text or a word that is not empty, and the stage and the number of calls are numbers that are
  positive and have 32 bits; a key refuses any other value.
* An edge statement without a source declares no edge.  Any other declares an edge whose details are those
  that its options decide: under each key the last value that the key takes, or else the default.
* This is what the help text promises, the default if the last value is refused, only where the values
  before that one do not say anything else.
* Each option that is refused, and no other, is reported once, in the order of the options and at its key and
  value, as an error if the key refuses the value and as a warning if there is no such key.
* Every edge of a unit is one of a statement. -/
theorem edge_options_decided (budget : Nat) (scope : Scope) (text : String) :
    (∀ v name, OptionKey.kind.take? v = some name ↔ (v = .text name ∨ v = .word name) ∧ name ≠ "") ∧
    (∀ k ∈ [OptionKey.sequence, OptionKey.repeats], ∀ v n,
      k.take? v = some n ↔ v = .number n ∧ 1 ≤ n ∧ n ≤ 0xFFFFFFFF) ∧
    (∀ (d : Draft) (s : EdgeStatement),
      (s.attempt (d.lastNode.or scope.origin) = .sourceless s ∧
        d.declareEdge scope s = d.report ((Fault.missingSource s.target.value).toDiagnostic s.span)) ∨
      ∃ e findings, s.attempt (d.lastNode.or scope.origin) = .edge e ∧
        d.declareEdge scope s = { d with diagnostics := d.diagnostics ++ findings }.admitEdge e ∧
        e.details.DecidedBy s.options ∧
        List.Forall₂ Refuses (s.options.filter fun option => !option.isTaken) findings) ∧
    ∀ e ∈ (Draft.ofText budget scope text).1.graph.edges,
      ∃ s, .edge s ∈ (parse budget scope.start text).events ∧ e.span = s.span ∧
        e.details.DecidedBy s.options := by
  refine ⟨fun v name => nonempty?_eq_some, fun k hk v n => ?_, fun d s => ?_, fun e he => ?_⟩
  · simp only [List.mem_cons, List.not_mem_nil, or_false] at hk
    rcases hk with rfl | rfl <;> exact positive?_eq_some
  · have hdecided := s.decidedBy
    unfold Draft.declareEdge EdgeStatement.attempt
    cases (s.source.map Located.value).or (d.lastNode.or scope.origin) with
    | none => exact .inl ⟨rfl, rfl⟩
    | some source => exact .inr ⟨_, _, rfl, rfl, hdecided, refusals_ofOptions s.options⟩
  · obtain ⟨s, hs, hspan, hdetails⟩ := exists_details (mem_edges_ofText budget scope text he)
    exact ⟨s, hs, hspan, hdetails ▸ s.decidedBy⟩

/-- A stage that is refused leaves behind the one before it, and not the default. -/
theorem edge_options_keep_earlier :
    let option (n : Int) : Assignment := ⟨⟨"sequence", default⟩, ⟨.number n, default⟩⟩
    let statement : EdgeStatement :=
      ⟨some ⟨"a", default⟩, ⟨"b", default⟩, [option 3, option 0], none, default⟩
    let draft : Draft := { graph := { nodes := [⟨"a", {}, default⟩, ⟨"b", {}, default⟩] } }
    let declared := draft.declareEdge {} statement
    (declared.diagnostics.map Diagnostic.code = [some .invalidOption] ∧
        declared.diagnostics.map Diagnostic.help = [some "the default is used instead"]) ∧
      declared.graph.edges.map (fun e => e.details.sequence) = [3] ∧ OptionKey.sequence.fallback = 1 := by
  decide

end CallGraph
