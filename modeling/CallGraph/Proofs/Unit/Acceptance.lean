import CallGraph.Proofs.Lint.Modes
import CallGraph.Proofs.Unit.Execution

/-!
# Units that are not rejected

A unit is rejected for its obstacles, so whatever the checks look for is known of every unit that leaves a
trace.

* `errors_checkSettings`, `errors_checkAddresses` — all that the checks find are errors;
* `checkSetting_of_obstacles`, `checkAddress_of_obstacles` — **the checks pass** for each setting and for each
  node of a unit without obstacles;
* `Leaves` — the trace of an execution, whole or up to the node that fails;
* `execution_leaves` — **an execution** is rejected, or refused for a cycle, or leaves a trace.
-/

namespace CallGraph

/-! ### Checks -/

section

variable {c : Configuration} {u : SourceUnit}

/-- All that is found about settings are errors. -/
theorem errors_checkSettings (g : Graph) :
    Diagnostic.errors (checkSettings g) = checkSettings g := by
  refine List.filter_eq_self.2 fun d hd => ?_
  obtain ⟨p, -, rfl | ⟨expected, help, rfl⟩⟩ := mem_checkSettings hd <;> rfl

/-- All that is found about addresses are errors. -/
theorem errors_checkAddresses (required : Bool) (g : Graph) :
    Diagnostic.errors (checkAddresses required g) = checkAddresses required g := by
  refine List.filter_eq_self.2 fun d hd => ?_
  obtain ⟨n, -, hd⟩ := List.mem_flatMap.1 hd
  rcases mem_checkAddress hd with ⟨v, rfl⟩ | ⟨v, rfl⟩ | rfl <;> rfl

/-- A unit without obstacles passes both checks. -/
theorem checks_of_obstacles (h : obstacles c u = []) :
    checkSettings u.graph = [] ∧ checkAddresses c.requireAddress u.graph = [] := by
  rw [obstacles, errors_append, errors_append, List.append_eq_nil_iff, List.append_eq_nil_iff,
    errors_checkSettings, errors_checkAddresses] at h
  exact ⟨h.1.2, h.2⟩

/-- **Each setting** of a unit without obstacles passes its check. -/
theorem checkSetting_of_obstacles (h : obstacles c u = []) {key : String} {v : Located Value}
    (hv : u.graph.settings.get? key = some v) : checkSetting key v = none := by
  have hnone := (checks_of_obstacles h).1
  rw [checkSettings, List.filterMap_eq_nil_iff] at hnone
  exact hnone _ (Dictionary.mem_of_get? hv)

/-- **Each node** of a unit without obstacles passes its check. -/
theorem checkAddress_of_obstacles (h : obstacles c u = []) {name : String} {n : Node}
    (hn : u.graph.node? name = some n) : checkAddress c.requireAddress n = [] :=
  List.flatMap_eq_nil_iff.1 (checks_of_obstacles h).2 n (List.mem_of_find?_eq_some hn)

end

/-! ### Traces that are left -/

/-- What comes of an execution leaves the trace behind: that of all nodes, or that of the nodes before the
one that fails. -/
inductive Leaves : Except ExecutionError Execution → Trace → Prop where
  | whole {t : Trace} {logs : List (LogLevel × String)} : Leaves (.ok ⟨t, logs⟩) t
  | upTo {t : Trace} {node message : String} : Leaves (.error (.nodeFailed node message t)) t

theorem executionOrder_error {c : Configuration} {g : Graph} {error : ExecutionError}
    (h : executionOrder c g = .error error) :
    (∃ errors, errors ≠ [] ∧ error = .rejected errors) ∨ ∃ path, error = .cycle path := by
  unfold executionOrder at h
  split at h
  · cases h
  · split at h
    · cases h
    · cases h
      exact .inr ⟨_, rfl⟩
    · cases h
      exact .inl ⟨_, List.cons_ne_nil _ _, rfl⟩

/-- **What an execution leaves**: the unit is rejected with errors, or refused for a cycle, or there are no
obstacles and there is a trace. -/
theorem execution_leaves {σ : Type} (c : Configuration) (executor : Executor σ) (u : SourceUnit) (s : σ) :
    let result := (execute c executor u s).1
    (∃ errors, errors ≠ [] ∧ result = .error (.rejected errors)) ∨
    (∃ path, result = .error (.cycle path)) ∨
    (obstacles c u = [] ∧ ∃ nodes, Leaves result (u.graph.traceOf nodes)) := by
  intro result
  by_cases hobstacles : obstacles c u = []
  · cases horder : executionOrder c u.graph with
    | error error =>
      have hresult : result = .error error :=
        congrArg Prod.fst (execute_of_refused hobstacles horder executor s)
      rcases executionOrder_error horder with ⟨errors, hne, rfl⟩ | ⟨path, rfl⟩
      · exact .inl ⟨errors, hne, hresult⟩
      · exact .inr (.inl ⟨path, hresult⟩)
    | ok nodes =>
      refine .inr (.inr ⟨hobstacles, ?_⟩)
      rcases execute_of_order hobstacles horder executor s with ⟨s', -, hexecuted⟩ |
        ⟨before, v, behind, message, s', s'', -, -, -, hexecuted⟩
      · refine ⟨nodes, ?_⟩
        rw [show result = _ from congrArg Prod.fst hexecuted]
        exact .whole
      · refine ⟨before, ?_⟩
        rw [show result = _ from congrArg Prod.fst hexecuted]
        exact .upTo
  · exact .inl ⟨_, hobstacles, congrArg Prod.fst (execute_of_obstacles hobstacles executor s)⟩

end CallGraph
