import CallGraph.Proofs.Lint.Report
import CallGraph.Proofs.Unit.Execution
import CallGraph.Proofs.Unit.Isolation

/-!
# Executing and linting agree

Executing and linting a text find the same errors.

* `perm_errors_lint` — the errors of a report are the obstacles to an execution and the cycles;
* `execute_warnings` — warnings are no obstacle;
* `execute_agrees` — what is found about a unit decides what its execution comes to;
* `modes_agree` — **what is wrong with a unit** does not depend on the mode.
-/

namespace CallGraph

/-! ### Errors -/

theorem errors_append (ds others : List Diagnostic) :
    Diagnostic.errors (ds ++ others) = Diagnostic.errors ds ++ Diagnostic.errors others :=
  List.filter_append _ _

theorem errors_unusedNodes (nodes : List Node) : Diagnostic.errors (nodes.map unusedNode) = [] := by
  rw [Diagnostic.errors, List.filter_eq_nil_iff]
  intro d hd
  obtain ⟨n, -, rfl⟩ := List.mem_map.1 hd
  exact Bool.false_ne_true

section

variable {c : Configuration} {u : SourceUnit} {g : Graph} {d : Diagnostic}

/-- **Warnings** are no obstacle. -/
theorem execute_warnings {σ : Type} (c : Configuration) (executor : Executor σ) (u : SourceUnit)
    (s : σ) :
    execute c executor ⟨u.graph, Diagnostic.errors u.diagnostics⟩ s = execute c executor u s := by
  have hobstacles : obstacles c ⟨u.graph, Diagnostic.errors u.diagnostics⟩ = obstacles c u := by
    unfold obstacles
    rw [errors_append, errors_append, errors_append, errors_append]
    congr 2
    unfold Diagnostic.errors
    rw [List.filter_filter]
    simp only [Bool.and_self]
  unfold execute
  rw [hobstacles]

theorem phase_cycleFindings (h : g.WellFormed) (hd : d ∈ cycleFindings g) :
    d.phase? = some .cycles := by
  obtain ⟨path, -, e, -, -, rfl⟩ := (mem_cycleFindings h).1 hd
  rfl

theorem phase_checkSettings (hd : d ∈ checkSettings g) : d.phase? = some .settings := by
  obtain ⟨p, -, rfl | ⟨expected, help, rfl⟩⟩ := mem_checkSettings hd <;> rfl

theorem phase_topFindings (hd : d ∈ topFindings c g) : d.phase? = some .nodes := by
  rcases List.mem_append.1 hd with haddress | hunused
  · obtain ⟨n, -, hd⟩ := List.mem_flatMap.1 haddress
    rcases mem_checkAddress hd with ⟨v, rfl⟩ | ⟨v, rfl⟩ | rfl <;> rfl
  · split at hunused
    · obtain ⟨n, -, rfl⟩ := List.mem_map.1 hunused
      rfl
    · exact absurd hunused List.not_mem_nil

theorem code_ne_cycle {phase : Phase} (h : d.phase? = some phase) (hne : phase ≠ .cycles) :
    d.code ≠ some .cycle := by
  intro hcode
  rw [Diagnostic.phase?, hcode] at h
  exact hne (Option.some.inj h).symm

/-- The errors that are not about cycles. -/
def otherErrors (ds : List Diagnostic) : List Diagnostic :=
  (Diagnostic.errors ds).filter fun d => d.code ≠ some .cycle

theorem otherErrors_append (ds others : List Diagnostic) :
    otherErrors (ds ++ others) = otherErrors ds ++ otherErrors others := by
  rw [otherErrors, errors_append, List.filter_append]
  rfl

theorem otherErrors_eq_errors {ds : List Diagnostic} (h : ∀ d ∈ ds, d.code ≠ some .cycle) :
    otherErrors ds = Diagnostic.errors ds :=
  List.filter_eq_self.2 fun d hd => decide_eq_true (h d (List.mem_filter.1 hd).1)

theorem errors_cycleFindings (h : g.WellFormed) :
    Diagnostic.errors (cycleFindings g) = cycleFindings g := by
  refine List.filter_eq_self.2 fun d hd => ?_
  obtain ⟨path, -, e, -, -, rfl⟩ := (mem_cycleFindings h).1 hd
  rfl

theorem otherErrors_cycleFindings (h : g.WellFormed) : otherErrors (cycleFindings g) = [] := by
  rw [otherErrors, errors_cycleFindings h, List.filter_eq_nil_iff]
  intro d hd
  obtain ⟨path, -, e, -, -, rfl⟩ := (mem_cycleFindings h).1 hd
  simp [Fault.toDiagnostic, Fault.code]

/-- **The errors of a report** are the obstacles to an execution and the cycles, if payloads are left
alone. -/
theorem perm_errors_lint (hc : c.payloads = false) (h : u.graph.WellFormed)
    (hcode : ∀ d ∈ u.diagnostics, d.code ≠ some .cycle) :
    (Diagnostic.errors (lint c u).diagnostics).Perm (obstacles c u ++ cycleFindings u.graph) ∧
      (otherErrors (lint c u).diagnostics).Perm (obstacles c u) := by
  have hperm : (lint c u).diagnostics.Perm
      (u.diagnostics ++ cycleFindings u.graph ++ checkSettings u.graph ++
        topFindings c u.graph) := by
    have hparts : payloadParts c 0 u.graph = [] := by
      rw [payloadParts, hc]
      rfl
    unfold lint
    rw [diagnostics_lintAt, unitFindings_eq c _ h, hparts, List.append_nil]
    exact List.mergeSort_perm _ _
  have hunused : Diagnostic.errors (if c.unusedNodes then u.graph.untouched.map unusedNode else []) =
      [] := by
    cases c.unusedNodes
    · rfl
    · exact errors_unusedNodes _
  have hobstacles : obstacles c u = Diagnostic.errors u.diagnostics ++
      Diagnostic.errors (checkSettings u.graph) ++
        Diagnostic.errors (checkAddresses c.requireAddress u.graph) := by
    rw [obstacles, errors_append, errors_append]
  constructor
  · refine (hperm.filter Diagnostic.isError).trans ?_
    show (Diagnostic.errors _).Perm _
    rw [errors_append, errors_append, errors_append, errors_cycleFindings h, topFindings,
      errors_append, hunused, List.append_nil, hobstacles]
    -- The cycles stand in the middle of the report.
    rw [List.append_assoc, List.append_assoc, List.append_assoc, List.append_assoc]
    refine List.Perm.append_left _ ?_
    exact List.perm_append_comm.trans (.of_eq (List.append_assoc _ _ _))
  · have hothers : (otherErrors (lint c u).diagnostics).Perm (otherErrors _) :=
      (hperm.filter Diagnostic.isError).filter _
    refine hothers.trans (.of_eq ?_)
    have hsettings : ∀ d ∈ checkSettings u.graph, d.code ≠ some .cycle := fun d hd =>
      code_ne_cycle (phase_checkSettings hd) (by decide)
    have haddresses : ∀ d ∈ checkAddresses c.requireAddress u.graph, d.code ≠ some .cycle :=
      fun d hd => code_ne_cycle (phase_topFindings (List.mem_append_left _ hd)) (by decide)
    rw [otherErrors_append, otherErrors_append, otherErrors_append, otherErrors_cycleFindings h,
      topFindings, otherErrors_append, otherErrors_eq_errors hcode, otherErrors_eq_errors hsettings,
      otherErrors_eq_errors haddresses, List.append_nil, hobstacles]
    rw [show otherErrors (if c.unusedNodes then u.graph.untouched.map unusedNode else []) = [] by
      rw [otherErrors, hunused]; rfl, List.append_nil]

end

/-! ### The two modes -/

/-- What an execution comes to, if cycles are not allowed. -/
theorem execute_cases {σ : Type} {c : Configuration} {u : SourceUnit} (hc : c.allowCycles = false)
    (h : u.graph.WellFormed) (executor : Executor σ) (s : σ) :
    (obstacles c u ≠ [] ∧ (execute c executor u s).1 = .error (.rejected (obstacles c u))) ∨
    (obstacles c u = [] ∧ ∃ path others, u.graph.cycles = path :: others ∧
      (execute c executor u s).1 = .error (.cycle path)) ∨
    (obstacles c u = [] ∧ u.graph.cycles = [] ∧
      ((∃ execution, (execute c executor u s).1 = .ok execution) ∨
        ∃ node message trace,
          (execute c executor u s).1 = .error (.nodeFailed node message trace))) := by
  rcases execute_outcomes c executor h s with ⟨hobstacles, hexecuted⟩ |
    ⟨hobstacles, -, path, others, hcycles, hexecuted⟩ | ⟨hobstacles, hcycles, order, -, -, houtcome⟩
  · exact .inl ⟨hobstacles, congrArg Prod.fst hexecuted⟩
  · exact .inr (.inl ⟨hobstacles, path, others, hcycles, congrArg Prod.fst hexecuted⟩)
  · refine .inr (.inr ⟨hobstacles, hcycles hc, ?_⟩)
    rcases houtcome with ⟨s', -, hexecuted⟩ | ⟨before, v, behind, message, s', s'', -, -, -, hexecuted⟩
    · exact .inl ⟨_, congrArg Prod.fst hexecuted⟩
    · exact .inr ⟨_, _, _, congrArg Prod.fst hexecuted⟩

/-- What linting finds and what an execution comes to, for a unit without findings about cycles. -/
theorem execute_agrees {σ : Type} {c : Configuration} {u : SourceUnit} (hpayloads : c.payloads = false)
    (hc : c.allowCycles = false) (h : u.graph.WellFormed)
    (hcode : ∀ d ∈ u.diagnostics, d.code ≠ some .cycle) (executor : Executor σ) (s : σ) :
    let errors := Diagnostic.errors (lint c u).diagnostics
    let others := errors.filter fun d => d.code ≠ some .cycle
    let result := (execute c executor u s).1
    (others ≠ [] → ∃ rejected, result = .error (.rejected rejected) ∧ rejected.Perm others) ∧
    (others = [] → errors ≠ [] → ∃ path rest, u.graph.cycles = path :: rest ∧
      result = .error (.cycle path) ∧
      ∃ d ∈ errors, d.code = some .cycle ∧ d.message = (ExecutionError.cycle path).message) ∧
    (errors = [] → (∃ execution, result = .ok execution) ∨
      ∃ node message trace, result = .error (.nodeFailed node message trace)) := by
  intro errors others result
  obtain ⟨herrors, hothers⟩ := perm_errors_lint hpayloads h hcode
  have hcases := execute_cases hc h executor s
  refine ⟨fun hne => ?_, fun hnil hne => ?_, fun hnone => ?_⟩
  · rcases hcases with ⟨-, hresult⟩ | ⟨hobstacles, -⟩ | ⟨hobstacles, -⟩
    · exact ⟨_, hresult, hothers.symm⟩
    · exact absurd (hobstacles ▸ hothers).eq_nil hne
    · exact absurd (hobstacles ▸ hothers).eq_nil hne
  · have hobstacles : obstacles c u = [] := (hothers.symm.trans (.of_eq hnil)).eq_nil
    rw [hobstacles, List.nil_append] at herrors
    rcases hcases with ⟨hsome, -⟩ | ⟨-, path, rest, hcycles, hresult⟩ | ⟨-, hcycles, -⟩
    · exact absurd hobstacles hsome
    · have hpath : path ∈ u.graph.cycles := hcycles ▸ List.mem_cons_self
      obtain ⟨e, he, hclosing⟩ := exists_closingEdge_of_mem h hpath
      have hmem : (Fault.cycle path).toDiagnostic e.span ∈ cycleFindings u.graph :=
        (mem_cycleFindings h).2 ⟨path, hpath, e, he, hclosing, rfl⟩
      exact ⟨path, rest, hcycles, hresult, _, herrors.mem_iff.2 hmem, rfl, rfl⟩
    · rw [cycleFindings, hcycles] at herrors
      exact absurd herrors.eq_nil hne
  · rw [show Diagnostic.errors (lint c u).diagnostics = [] from hnone] at herrors
    obtain ⟨hobstacles, hcircles⟩ := List.append_eq_nil_iff.1 herrors.symm.eq_nil
    have hcycles : u.graph.cycles = [] := List.map_eq_nil_iff.1 hcircles
    rcases hcases with ⟨hsome, -⟩ | ⟨-, path, rest, hsome, -⟩ | ⟨-, -, hrun⟩
    · exact absurd hobstacles hsome
    · rw [hcycles] at hsome
      cases hsome
    · exact hrun

/-- **What is wrong with a unit** does not depend on the mode, if payloads are not linted and cycles
not allowed.

* A text that is refused is refused with the same error in both modes; otherwise there is a report.
* If the report has errors that are not about cycles, the unit is rejected with exactly those.
* If all its errors are about cycles, the execution fails with the first cycle of the graph, which is
  among them.
* If it has no errors, the unit is executed, unless one of its nodes fails.
* Warnings make no difference to an execution. -/
theorem modes_agree (c : Configuration) (scope : Scope) (left : Draft) (text : String) :
    let quiet := { c with payloads := false, allowCycles := false }
    let linted := (Session.run { Session.ofMode .lint quiet with scope, draft := left } text).1
    let executed := (Session.run { Session.ofMode .app quiet with scope, draft := left } text).1
    let graph := (Draft.ofText c.budget scope text).1.graph
    ((∃ error, linted = .error (.unreadable error) ∧ executed = .error (.unreadable error)) ∨
      ∃ report, linted = .ok (.linted report) ∧
        let errors := Diagnostic.errors report.diagnostics
        let others := errors.filter fun d => d.code ≠ some .cycle
        (others ≠ [] → ∃ rejected, executed = .error (.execution (.rejected rejected)) ∧
          rejected.Perm others) ∧
        (others = [] → errors ≠ [] → ∃ path rest, graph.cycles = path :: rest ∧
          executed = .error (.execution (.cycle path)) ∧
          ∃ d ∈ errors, d.code = some .cycle ∧ d.message = (ExecutionError.cycle path).message) ∧
        (errors = [] → (∃ execution, executed = .ok (.executed execution)) ∨
          ∃ node message trace,
            executed = .error (.execution (.nodeFailed node message trace)))) ∧
    ∀ u, (Behavior.ofMode .app quiet).process ⟨u.graph, Diagnostic.errors u.diagnostics⟩ =
      (Behavior.ofMode .app quiet).process u := by
  intro quiet linted executed graph
  refine ⟨?_, fun u => ?_⟩
  · rcases Draft.ofText_cases c.budget scope text with ⟨-, hread⟩ | ⟨error, -, hread⟩
    · have hcode : ∀ d ∈ (Draft.ofText c.budget scope text).1.diagnostics,
          d.code ≠ some .cycle := by
        intro d hd
        rcases phase_ofText c.budget scope text hd with hphase | hphase <;>
          exact code_ne_cycle hphase (by decide)
      have hgraph : graph = _ := congrArg (fun read => read.1.graph) hread
      have hlinted : linted = .ok (.linted (lint quiet _)) := Session.run_of_ok hread
      have hexecuted : executed =
          ((execute quiet simulate _ ()).1.map .executed).mapError .execution :=
        Session.run_of_ok hread
      rw [hread] at hcode
      rw [hlinted, hexecuted, hgraph]
      set u := (Draft.ofEvents scope (parse c.budget scope.start text).events).toUnit
      obtain ⟨hrejected, hcycle, hnone⟩ :=
        execute_agrees (c := quiet) (u := u) rfl rfl (wellFormed_ofEvents _ _) hcode simulate ()
      refine .inr ⟨lint quiet u, rfl, fun hne => ?_, fun hnil hne => ?_, fun hnil => ?_⟩
      · obtain ⟨rejected, hresult, hperm⟩ := hrejected hne
        exact ⟨rejected, by rw [hresult]; rfl, hperm⟩
      · obtain ⟨path, rest, hcycles, hresult, hmem⟩ := hcycle hnil hne
        exact ⟨path, rest, hcycles, by rw [hresult]; rfl, hmem⟩
      · rcases hnone hnil with ⟨execution, hresult⟩ | ⟨node, message, trace, hresult⟩
        · exact .inl ⟨execution, by rw [hresult]; rfl⟩
        · exact .inr ⟨node, message, trace, by rw [hresult]; rfl⟩
    · exact .inl ⟨error, Session.run_of_error hread, Session.run_of_error hread⟩
  · rw [Behavior.process_ofMode_app, Behavior.process_ofMode_app, execute_warnings]

end CallGraph
