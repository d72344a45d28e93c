import CallGraph.CommandLine.Run
import CallGraph.Proofs.Lint.Depth
import CallGraph.Proofs.Service.Classification

/-!
# Answers in different formats

A run answers in one of three formats.  Each makes its answer in its own way, and all of them agree on what
became of the unit.

* `Answer.json_clean_iff`, `Answer.json_of_text_error` — whatever becomes of a unit, the answers in JSON and
  as a **text** agree;
* `FailsAsText` — what a run that answers as a text fails for; `answer_text_error_iff` — it fails for nothing
  else;
* `dot_error_iff`, `dot_of_linted` — the answer in **DOT** is the graph of the lint report;
* `Files.run_eq` — what a run answers once the files have given the configuration and the source;
* `run_formats_agree` — all of it, for every run whose files can be read and written.
-/

namespace CallGraph

/-! ### Answers to the same result -/

namespace Answer

variable {result : Except Failure Outcome} {failure : Failure}

theorem json_completion_eq_clean_iff :
    (json result).completion = .clean ↔ (Response.ofResult result).status = .ok := by
  show (if (Response.ofResult result).status = .ok then Completion.clean else .findings) = .clean ↔ _
  split <;> simp [*]

/-- No failure is answered as if nothing had happened. -/
theorem status_ofFailure (failure : Failure) : (Response.ofFailure failure).status ≠ .ok := by
  cases failure with
  | execution error => cases error <;> exact Status.noConfusion
  | _ => exact Status.noConfusion

/-- A failure is not answered as a text, or it is with findings. -/
theorem text_of_failure (failure : Failure) : text (.error failure) = .error failure ∨
    ∃ t, text (.error failure) = .ok t ∧ t.completion = .findings := by
  cases failure with
  | execution error =>
    cases error with
    | rejected errors => exact .inr ⟨_, rfl, rfl⟩
    | cycle path => exact .inl rfl
    | nodeFailed node message trace => exact .inr ⟨_, rfl, rfl⟩
  | _ => exact .inl rfl

/-- **The answers agree** on whether there is nothing to complain about. -/
theorem json_clean_iff :
    (json result).completion = .clean ↔ ∃ t, text result = .ok t ∧ t.completion = .clean := by
  rw [json_completion_eq_clean_iff]
  cases result with
  | ok outcome =>
    have htext : (∃ t, text (.ok outcome) = .ok t ∧ t.completion = .clean) ↔
        (ofOutcome outcome).completion = .clean :=
      ⟨fun ⟨t, ht, hclean⟩ => Except.ok.inj ht ▸ hclean, fun hclean => ⟨_, rfl, hclean⟩⟩
    rw [htext]
    cases outcome with
    | executed execution => exact iff_of_true rfl rfl
    | linted report =>
      show (if report.hasErrors then Status.diagnostics else .ok) = .ok ↔
        (if report.hasErrors then Completion.findings else .clean) = .clean
      split <;> simp
  | error failure =>
    refine iff_of_false (status_ofFailure failure) ?_
    rintro ⟨t, ht, hclean⟩
    rcases text_of_failure failure with hnone | ⟨t', ht', hfindings⟩
    · rw [hnone] at ht
      cases ht
    · rw [ht'] at ht
      obtain rfl := Except.ok.inj ht
      rw [hfindings] at hclean
      cases hclean

/-- A run that answers as a text fails for what became of the unit only. -/
theorem eq_of_text_error (h : text result = .error failure) : result = .error failure := by
  cases result with
  | ok outcome => cases h
  | error found =>
    rcases text_of_failure found with hnone | ⟨t, ht, -⟩
    · rw [hnone] at h
      rw [Except.error.inj h]
    · rw [ht] at h
      cases h

/-- **Where there is no answer** as a text, the answer in JSON has findings. -/
theorem json_of_text_error (h : text result = .error failure) : (json result).completion = .findings := by
  cases hjson : (json result).completion with
  | findings => rfl
  | clean =>
    obtain ⟨t, ht, -⟩ := json_clean_iff.1 hjson
    rw [h] at ht
    cases ht

end Answer

section

variable {c : Configuration} {mode : Mode} {source : String} {failure : Failure}

/-! ### Runs that fail -/

/-- What a run that answers as a text fails for: the text of the unit is refused, or there is a cycle that
is not allowed and nothing else that keeps the unit from being executed. -/
inductive FailsAsText (c : Configuration) (mode : Mode) (source : String) : Failure → Prop where
  /-- The text is refused. -/
  | unreadable {error : SyntaxError} (hresult : (parse c.budget .start source).result = .error error) :
    FailsAsText c mode source (.unreadable error source)
  /-- There is a cycle, and the first one is shown. -/
  | cycle {path : List String} {others : List (List String)}
    (hread : (parse c.budget .start source).result = .ok ()) (hmode : mode = .app)
    (hobstacles : obstacles c (SourceUnit.ofSource c source) = []) (hallowed : c.allowCycles = false)
    (hcycles : (SourceUnit.ofSource c source).graph.cycles = path :: others) :
    FailsAsText c mode source (.execution (.cycle path))

theorem processSource_lint (h : (parse c.budget .start source).result = .ok ()) :
    processSource c .lint source = .ok (.linted (lint c (SourceUnit.ofSource c source))) :=
  processSource_readable .lint h

theorem FailsAsText.processSource_eq (h : FailsAsText c mode source failure) :
    processSource c mode source = .error failure := by
  cases h with
  | unreadable hresult => exact processSource_unreadable hresult
  | @cycle path others hread hmode hobstacles hallowed hcycles =>
    subst hmode
    rw [processSource_readable .app hread, Behavior.process_ofMode_app]
    rcases execute_outcomes c simulate (wellFormed_ofSource hread) () with ⟨hne, -⟩ |
      ⟨-, -, path', others', hcycles', hexecuted⟩ | ⟨-, hnone, -⟩
    · exact absurd hobstacles hne
    · rw [hcycles] at hcycles'
      obtain ⟨rfl, -⟩ := List.cons.inj hcycles'
      rw [hexecuted]
      rfl
    · rw [hnone hallowed] at hcycles
      cases hcycles

theorem FailsAsText.text_eq (h : FailsAsText c mode source failure) :
    Answer.text (processSource c mode source) = .error failure := by
  rw [h.processSource_eq]
  cases h <;> rfl

/-- **A run that answers as a text** fails for a text that is refused and for a cycle, and for nothing
else. -/
theorem answer_text_error_iff :
    answer c mode .text source = .error failure ↔ FailsAsText c mode source failure := by
  refine ⟨fun h => ?_, FailsAsText.text_eq⟩
  have htext : Answer.text (processSource c mode source) = .error failure := h
  have hresult := Answer.eq_of_text_error htext
  cases hparse : (parse c.budget .start source).result with
  | error error =>
    rw [processSource_unreadable hparse] at hresult
    obtain rfl := Except.error.inj hresult
    exact .unreadable hparse
  | ok done =>
    cases mode with
    | lint =>
      rw [processSource_lint hparse] at hresult
      cases hresult
    | app =>
      rw [processSource_readable .app hparse, Behavior.process_ofMode_app] at htext
      rcases execute_outcomes c simulate (wellFormed_ofSource hparse) () with ⟨-, hexecuted⟩ |
        ⟨hobstacles, hallowed, path, others, hcycles, hexecuted⟩ |
        ⟨-, -, order, -, -, ⟨s, -, hexecuted⟩ | ⟨before, n, behind, message, s, s', -, -, -, hexecuted⟩⟩ <;>
        rw [hexecuted] at htext
      · cases htext
      · obtain rfl := Except.error.inj htext
        exact .cycle hparse rfl hobstacles hallowed hcycles
      · cases htext
      · cases htext

/-! ### Graphs -/

/-- There is no graph of a text that is refused. -/
theorem dot_of_unreadable {error : SyntaxError} (h : (parse c.budget .start source).result = .error error) :
    Answer.dot c source = .error (.unreadable error source) := by
  rw [Answer.dot, Draft.ofText_of_error c.budget {} source h]

/-- The graph of a text that is read is the one that a lint report shows, whatever else the report says. -/
theorem dot_of_readable (h : (parse c.budget .start source).result = .ok ()) :
    Answer.dot c source =
      .ok { completion := .clean, output := .text (lint c (SourceUnit.ofSource c source)).dot } := by
  have hdot : (lint c (SourceUnit.ofSource c source)).dot = (SourceUnit.ofSource c source).graph.toDot :=
    dot_lintAt c 0 _
  rw [hdot, SourceUnit.ofSource, Answer.dot, Draft.ofText_of_ok c.budget {} source h]
  rfl

/-- A unit can be linted if its text is read. -/
theorem processSource_lint_error_iff : processSource c .lint source = .error failure ↔
    ∃ error, (parse c.budget .start source).result = .error error ∧
      failure = .unreadable error source := by
  constructor
  · intro h
    cases hparse : (parse c.budget .start source).result with
    | error error =>
      rw [processSource_unreadable hparse] at h
      exact ⟨error, rfl, (Except.error.inj h).symm⟩
    | ok done =>
      rw [processSource_lint hparse] at h
      cases h
  · rintro ⟨error, hparse, rfl⟩
    exact processSource_unreadable hparse

/-- **In DOT** a run fails like one that lints the unit. -/
theorem dot_error_iff :
    Answer.dot c source = .error failure ↔ processSource c .lint source = .error failure := by
  rw [processSource_lint_error_iff]
  constructor
  · intro h
    cases hparse : (parse c.budget .start source).result with
    | error error =>
      rw [dot_of_unreadable hparse] at h
      exact ⟨error, rfl, (Except.error.inj h).symm⟩
    | ok done =>
      rw [dot_of_readable hparse] at h
      cases h
  · rintro ⟨error, hparse, rfl⟩
    exact dot_of_unreadable hparse

/-- **Otherwise** it writes the graph of the report. -/
theorem dot_of_linted {outcome : Outcome} (h : processSource c .lint source = .ok outcome) :
    ∃ report, outcome = .linted report ∧
      Answer.dot c source = .ok { completion := .clean, output := .text report.dot } := by
  cases hparse : (parse c.budget .start source).result with
  | error error =>
    rw [processSource_unreadable hparse] at h
    cases h
  | ok done =>
    rw [processSource_lint hparse] at h
    exact ⟨_, (Except.ok.inj h).symm, dot_of_readable hparse⟩

end

/-! ### Runs -/

/-- **A run** answers to what it reads, if its answer can be written. -/
theorem Files.run_eq {f : Files} {o : Options} {c : Configuration} {source : String}
    (hc : f.configurationFor o = .ok c) (hsource : f.source o = .ok source)
    (hplace : ∀ path, o.output = some path → f.admits path = .ok ()) :
    f.run o = answer c o.mode o.format source := by
  unfold run
  rw [hc, hsource]
  show (answer c o.mode o.format source).bind _ = _
  cases answer c o.mode o.format source with
  | error failure => rfl
  | ok given =>
    cases houtput : o.output with
    | none => rfl
    | some path =>
      show (f.admits path).bind _ = _
      rw [hplace path houtput]
      rfl

/-- **The formats agree.**  The same run is done in each of the three formats, where the configuration and the
source can be read and the answer can be written.

* In JSON there always is an answer, and it is clean precisely if there is a clean answer as a text.
* There is no answer as a text precisely if the text of the unit is refused or there is a cycle that is not
  allowed.  Then the answer in JSON has findings.
* There is no answer in DOT precisely if the unit cannot be linted, that is, if its text is refused.
  Otherwise the answer is the graph of the lint report. -/
theorem run_formats_agree (f : Files) (o : Options) (c : Configuration) (source : String)
    (hc : f.configurationFor o = .ok c) (hsource : f.source o = .ok source)
    (hplace : ∀ path, o.output = some path → f.admits path = .ok ()) :
    let run := fun format => f.run { o with format }
    (∃ json, run .json = .ok json ∧
      (json.completion = .clean ↔ ∃ text, run .text = .ok text ∧ text.completion = .clean) ∧
      ∀ failure, run .text = .error failure → json.completion = .findings) ∧
    (∀ failure, run .text = .error failure ↔ FailsAsText c o.mode source failure) ∧
    (∀ failure, FailsAsText c o.mode source failure →
      processSource c o.mode source = .error failure) ∧
    (∀ failure, run .dot = .error failure ↔ processSource c .lint source = .error failure) ∧
    (∀ failure, processSource c .lint source = .error failure ↔
      ∃ error, (parse c.budget .start source).result = .error error ∧
        failure = .unreadable error source) ∧
    ∀ outcome, processSource c .lint source = .ok outcome → ∃ report, outcome = .linted report ∧
      run .dot = .ok { completion := .clean, output := .text report.dot } := by
  intro run
  have hrun : ∀ format, run format = answer c o.mode format source := fun format =>
    Files.run_eq (o := { o with format }) hc hsource hplace
  have hjson : run .json = .ok (.json (processSource c o.mode source)) := hrun .json
  have htext : run .text = Answer.text (processSource c o.mode source) := hrun .text
  have hdot : run .dot = Answer.dot c source := hrun .dot
  rw [hdot]
  refine ⟨⟨_, hjson, ?_, fun failure h => ?_⟩, fun failure => ?_, fun failure h => h.processSource_eq,
    fun failure => dot_error_iff, fun failure => processSource_lint_error_iff,
    fun outcome => dot_of_linted⟩
  · rw [htext]
    exact Answer.json_clean_iff
  · exact Answer.json_of_text_error (htext.symm.trans h)
  · rw [hrun]
    exact answer_text_error_iff

/-- A unit on standard input whose nodes call each other is refused: as a text there is no answer, and in
JSON the answer has findings. -/
theorem run_formats_agree_cycle :
    let source := ".a [] .b [] a -> b; b -> a;"
    let f : Files := { entry := fun _ => none, userConfiguration := none, standardInput := source.toUTF8 }
    let o : Options := { input := "-", strict := true }
    f.run { o with format := .text } = .error (.execution (.cycle ["a", "b", "a"])) ∧
      ∃ json, f.run { o with format := .json } = .ok json ∧ json.completion = .findings := by
  intro source f o
  have hc : f.configurationFor o = .ok (Configuration.strict {}) := by rfl
  have hread : f.source o = .ok source ∧
      (parse (Configuration.strict {}).budget .start source).result = .ok () ∧
      obstacles (Configuration.strict {}) (SourceUnit.ofSource (Configuration.strict {}) source) = [] ∧
      (SourceUnit.ofSource (Configuration.strict {}) source).graph.cycles = [["a", "b", "a"]] := by
    decide +kernel
  obtain ⟨hsource, hparse, hobstacles, hcycles⟩ := hread
  obtain ⟨⟨json, hjson, -, hfindings⟩, hfails, -⟩ :=
    run_formats_agree f o (Configuration.strict {}) source hc hsource fun path hpath => by cases hpath
  have htext : f.run { o with format := .text } = .error (.execution (.cycle ["a", "b", "a"])) :=
    (hfails _).2 (.cycle hparse rfl hobstacles rfl hcycles)
  exact ⟨htext, json, hjson, hfindings _ htext⟩

end CallGraph
