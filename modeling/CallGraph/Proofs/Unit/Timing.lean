import CallGraph.Proofs.Unit.Acceptance

/-!
# What a trace keeps of the timing settings

The delays and the limit for a call are read from settings whose values were checked before.  Reading falls
back on nothing where a value is no natural number, and the limit is cut off twice.  Neither loses anything.

* `timingKeys`, `checkSetting_timing` — a timing setting that passes its check is a natural number;
* `natural?_cases` — so nothing is fallen back on in a unit without obstacles, but for settings that are not
  made;
* `callTimeout?_eq` — two cuts come to one;
* `Graph.setting?_built`, `setting?_ofText` — a setting has the value that is assigned last;
* `Trace.Keeps`, `timing_kept` — **every trace** keeps the timing settings.
-/

namespace CallGraph

/-! ### Values that pass -/

/-- The settings that are lengths of time. -/
def timingKeys : List String := ["predelay", "postdelay", "timeout_sec", "timeout_usec"]

section

variable {v : Located Value} {key : String}

theorem exists_number_of_any {v : Value} {test : Int → Bool} (h : v.asNumber?.any test = true) :
    ∃ n, v = .number n ∧ test n = true := by
  cases v with
  | number n => exact ⟨n, rfl, h⟩
  | text content => cases h
  | word name => cases h

theorem checkSetting_microseconds (h : checkSetting "timeout_usec" v = none) :
    ∃ n : Nat, v.value = .number n ∧ n < 1000000 := by
  have hholds : v.value.asNumber?.any isMicroseconds = true := by
    simpa [checkSetting] using h
  obtain ⟨n, hvalue, htest⟩ := exists_number_of_any hholds
  simp only [isMicroseconds, Bool.and_eq_true, decide_eq_true_eq] at htest
  refine ⟨n.toNat, ?_, by omega⟩
  rw [hvalue, Int.toNat_of_nonneg htest.1]

/-- **A timing setting that passes its check** is a natural number. -/
theorem checkSetting_timing (hkey : key ∈ timingKeys) (h : checkSetting key v = none) :
    ∃ n : Nat, v.value = .number n := by
  have hduration : v.value.asNumber?.any isDuration = true → ∃ n : Nat, v.value = .number n := by
    intro hholds
    obtain ⟨n, hvalue, htest⟩ := exists_number_of_any hholds
    refine ⟨n.toNat, ?_⟩
    rw [hvalue, Int.toNat_of_nonneg (of_decide_eq_true htest)]
  simp only [timingKeys, List.mem_cons, List.not_mem_nil, or_false] at hkey
  rcases hkey with rfl | rfl | rfl | rfl
  · exact hduration (by simpa [checkSetting] using h)
  · exact hduration (by simpa [checkSetting] using h)
  · exact hduration (by simpa [checkSetting] using h)
  · obtain ⟨n, hvalue, -⟩ := checkSetting_microseconds h
    exact ⟨n, hvalue⟩

end

/-! ### Values that are read -/

section

variable {c : Configuration} {u : SourceUnit} {key : String}

/-- **Nothing is fallen back on**: a timing setting is not made, or it is read as the number that it is. -/
theorem natural?_cases (h : obstacles c u = []) (hkey : key ∈ timingKeys) :
    (u.graph.setting? key = none ∧ u.graph.natural? key = none) ∨
      ∃ n : Nat, u.graph.setting? key = some (.number n) ∧ u.graph.natural? key = some n := by
  unfold Graph.natural? Graph.setting?
  cases hv : u.graph.settings.get? key with
  | none => exact .inl ⟨rfl, rfl⟩
  | some v =>
    obtain ⟨n, hvalue⟩ := checkSetting_timing hkey (checkSetting_of_obstacles h hv)
    refine .inr ⟨n, by rw [Option.map_some, hvalue], ?_⟩
    simp [hvalue, Value.asNumber?]

/-- Cut off twice is cut off once. -/
theorem min_longestTime (seconds millis : Nat) :
    min longestTime (min longestTime (seconds * 1000) + millis) =
      min longestTime (1000 * seconds + millis) := by
  omega

/-- **The limit for a call** is there if one of its parts is set, and it is cut off only at the end. -/
theorem callTimeout?_eq (g : Graph) : g.callTimeout? =
    if g.natural? "timeout_sec" = none ∧ g.natural? "timeout_usec" = none then none
    else some (min longestTime (1000 * (g.natural? "timeout_sec").getD 0 +
      (g.natural? "timeout_usec").getD 0 / 1000)) := by
  unfold Graph.callTimeout?
  simp only [min_longestTime]
  cases g.natural? "timeout_sec" <;> cases g.natural? "timeout_usec" <;> simp

/-- The number is the value, or zero if there is none. -/
def IsNumberOrZero (value : Option Value) (n : Nat) : Prop :=
  value = some (.number n) ∨ value = none ∧ n = 0

theorem isNumberOrZero_natural? (h : obstacles c u = []) (hkey : key ∈ timingKeys) :
    IsNumberOrZero (u.graph.setting? key) ((u.graph.natural? key).getD 0) := by
  rcases natural?_cases h hkey with ⟨hunset, hread⟩ | ⟨n, hset, hread⟩
  · exact .inr ⟨hunset, congrArg (Option.getD · 0) hread⟩
  · rw [hread]
    exact .inl hset

theorem natural?_eq_none_iff (h : obstacles c u = []) (hkey : key ∈ timingKeys) :
    u.graph.natural? key = none ↔ u.graph.setting? key = none := by
  rcases natural?_cases h hkey with ⟨hunset, hread⟩ | ⟨n, hset, hread⟩
  · exact iff_of_true hread hunset
  · simp [hset, hread]

/-- The part of a second is less than a second. -/
theorem natural?_microseconds (h : obstacles c u = []) :
    (u.graph.natural? "timeout_usec").getD 0 < 1000000 := by
  cases hv : u.graph.settings.get? "timeout_usec" with
  | none => simp [Graph.natural?, Graph.setting?, hv]
  | some v =>
    obtain ⟨n, hvalue, hless⟩ := checkSetting_microseconds (checkSetting_of_obstacles h hv)
    simpa [Graph.natural?, Graph.setting?, hv, hvalue, Value.asNumber?] using hless

end

/-! ### Values that are assigned -/

/-- The value that the change assigns to the setting, if it does. -/
def Change.value? (key : String) : Change → Option Value
  | node _ => none
  | edge _ => none
  | setting other v => if other = key then some v.value else none

/-- Only an assignment changes the settings. -/
theorem Graph.setting?_after (g : Graph) (change : Change) (key : String) :
    (g.after change).setting? key = (change.value? key).or (g.setting? key) := by
  cases change with
  | node n =>
    have hsettings : (g.after (.node n)).settings = g.settings := by
      rcases g.insertNode_cases n with ⟨-, hinsert⟩ | ⟨-, first, hinsert⟩ <;>
        rw [after_of_apply (c := .node n) hinsert]
    unfold setting?
    rw [hsettings]
    rfl
  | edge e =>
    have hsettings : (g.after (.edge e)).settings = g.settings := by
      rcases g.insertEdge_cases e with ⟨fault, hinsert⟩ | ⟨edges, hinsert⟩ <;>
        rw [after_of_apply (c := .edge e) hinsert]
    unfold setting?
    rw [hsettings]
    rfl
  | setting other v =>
    show ((g.settings.insert other v).get? key).map Located.value = _
    by_cases h : other = key
    · subst h
      simp [Change.value?]
    · rw [Dictionary.get?_insert_of_ne _ (Ne.symm h)]
      simp [Change.value?, h, setting?]

/-- **A setting of a graph** has the value that was assigned last. -/
theorem Graph.setting?_built (changes : List Change) (key : String) :
    (built changes).setting? key = (changes.filterMap (Change.value? key)).getLast? := by
  induction changes using List.reverseRecOn with
  | nil => rfl
  | append_singleton changes change ih =>
    rw [built_concat, setting?_after, ih, List.filterMap_append]
    cases h : change.value? key <;> simp [h]

/-- **A setting of a text** has the value that is assigned last, whether the text is read to its end or
not. -/
theorem setting?_ofText (budget : Nat) (scope : Scope) (text : String) (key : String) :
    (Draft.ofText budget scope text).1.graph.setting? key =
      (lastAssigned (settingsOf (parse budget scope.start text).events) key).map Located.value := by
  unfold Graph.setting?
  rcases Draft.ofText_cases budget scope text with ⟨-, heq⟩ | ⟨error, -, heq⟩ <;> rw [heq]
  · rw [settings_ofEvents, (records_foldl scope _).get?_eq]
  · rw [(records_foldl scope _).get?_eq]

/-! ### Traces -/

/-- The trace has the delays and the limit for a call that the settings ask for, each setting with the value
that `last` tells. -/
structure Trace.Keeps (last : String → Option Value) (t : Trace) : Prop where
  /-- The delay before the calls. -/
  predelay : IsNumberOrZero (last "predelay") t.predelay
  /-- The delay after the calls. -/
  postdelay : IsNumberOrZero (last "postdelay") t.postdelay
  /-- There is a limit for a call if one of its parts is set. -/
  callTimeout_eq_none_iff :
    t.callTimeout = none ↔ last "timeout_sec" = none ∧ last "timeout_usec" = none
  /-- The limit is the sum of its parts, as far as it has 64 bits.  The microseconds are less than a second. -/
  callTimeout_eq : ∀ limit, t.callTimeout = some limit → ∃ seconds micros : Nat,
    IsNumberOrZero (last "timeout_sec") seconds ∧ IsNumberOrZero (last "timeout_usec") micros ∧
      micros < 1000000 ∧ limit = min 0xFFFFFFFFFFFFFFFF (1000 * seconds + micros / 1000)

/-- **The trace of a unit without obstacles** keeps the settings. -/
theorem keeps_traceOf {c : Configuration} {u : SourceUnit} (h : obstacles c u = []) (nodes : List Node) :
    (u.graph.traceOf nodes).Keeps u.graph.setting? where
  predelay := isNumberOrZero_natural? h (by decide)
  postdelay := isNumberOrZero_natural? h (by decide)
  callTimeout_eq_none_iff := by
    show u.graph.callTimeout? = none ↔ _
    rw [callTimeout?_eq, ← natural?_eq_none_iff h (by decide), ← natural?_eq_none_iff h (by decide)]
    simp
  callTimeout_eq := by
    intro limit hlimit
    replace hlimit : u.graph.callTimeout? = some limit := hlimit
    rw [callTimeout?_eq, Option.ite_none_left_eq_some, Option.some.injEq] at hlimit
    exact ⟨_, _, isNumberOrZero_natural? h (by decide), isNumberOrZero_natural? h (by decide),
      natural?_microseconds h, hlimit.2.symm⟩

/-- **Timing settings reach the trace** without loss.

* A unit is rejected or refused for a cycle, or it leaves a trace, whole or up to a node that fails.  The
  trace has the delays that are set, or else zero.  It has no limit for a call if neither of its parts is set,
  and else the seconds and the microseconds in milliseconds, cut off only where the sum has more than 64 bits.
* A setting of a graph has the value that was assigned to it last.
* So has a setting of a text. -/
theorem timing_kept :
    (∀ (σ : Type) (c : Configuration) (executor : Executor σ) (u : SourceUnit) (s : σ),
      let result := (execute c executor u s).1
      (∃ errors, errors ≠ [] ∧ result = .error (.rejected errors)) ∨
      (∃ path, result = .error (.cycle path)) ∨
      ∃ t, Leaves result t ∧ t.Keeps u.graph.setting?) ∧
    (∀ changes key, (Graph.built changes).setting? key =
      (changes.filterMap (Change.value? key)).getLast?) ∧
    ∀ budget scope text key, (Draft.ofText budget scope text).1.graph.setting? key =
      (lastAssigned (settingsOf (parse budget scope.start text).events) key).map Located.value := by
  refine ⟨fun σ c executor u s => ?_, Graph.setting?_built, setting?_ofText⟩
  rcases execution_leaves c executor u s with hrejected | hcycle | ⟨hobstacles, nodes, hleaves⟩
  · exact .inl hrejected
  · exact .inr (.inl hcycle)
  · exact .inr (.inr ⟨_, hleaves, keeps_traceOf hobstacles nodes⟩)

end CallGraph
