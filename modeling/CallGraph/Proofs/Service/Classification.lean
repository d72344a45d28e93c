import CallGraph.Proofs.Unit.Acceptance
import CallGraph.Service.Response

/-!
# How requests are answered

The answer to a request is told by the text and by the unit that it describes: by whether the text is
read to its end, whether the unit is refused, whether one of its nodes fails, and by the errors of its
report.

* `Refused`, `refused_iff` — units that are not executed at all;
* `response_mem_range` — the response of a unit without obstacles is a response code;
* `Response.Row` — the rows of the table, `Row.Applies` with the occasions, and `Row.Shows` with the
  status, the body and the code that belong together;
* `handle_unreadable`, `handle_linted`, `handle_refused`, `handle_failed`, `handle_executed` — the answer
  on each of the occasions;
* `exists_row`, `Row.Applies.shows` — one row applies, and the answer belongs to it;
* `handle_classified` — **the code of an answer** tells what became of the request, but for units that
  choose their code themselves.
-/

namespace CallGraph

open Relation (TransGen)

/-! ### Units that are refused -/

/-- The unit that a source describes, once its text is read. -/
def SourceUnit.ofSource (c : Configuration) (source : String) : SourceUnit :=
  (Draft.ofText c.budget {} source).1.toUnit

/-- A unit is not executed at all: there are errors, or there is a cycle that is not allowed. -/
def Refused (c : Configuration) (u : SourceUnit) : Prop :=
  obstacles c u ≠ [] ∨ c.allowCycles = false ∧ ∃ name, TransGen u.graph.Calls name name

section

variable {c : Configuration} {u : SourceUnit}

theorem refused_iff (h : u.graph.WellFormed) :
    Refused c u ↔ obstacles c u ≠ [] ∨ c.allowCycles = false ∧ u.graph.cycles ≠ [] := by
  refine or_congr_right (and_congr_right fun _ => ?_)
  rw [ne_eq, h.cycles_eq_nil_iff, not_forall_not]

/-! ### The response setting -/

/-- The response that the settings choose: the one assigned last, or else the default. -/
def chosenResponse (settings : List Assignment) : Int :=
  ((lastAssigned settings "response").bind fun v => v.value.asNumber?).getD defaultResponse

theorem emptyTrace_ofEvents (scope : Scope) (events : List Event) :
    (Draft.ofEvents scope events).graph.emptyTrace.response = chosenResponse (settingsOf events) := by
  show (((Draft.ofEvents scope events).graph.settings.get? "response").map _ |>.bind _).getD _ = _
  rw [settings_ofEvents, (records_foldl scope events).get?_eq, chosenResponse, Option.bind_map]
  rfl

theorem checkSetting_response {v : Located Value} (h : checkSetting "response" v = none) :
    ∃ n, v.value.asNumber? = some n ∧ 1 ≤ n ∧ n ≤ 599 := by
  have hholds : (v.value.asNumber?.any isResponseCode) = true := by
    refine Classical.byContradiction fun hfails => ?_
    rw [show checkSetting "response" v = if v.value.asNumber?.any isResponseCode then none
      else some (invalidResponse v) from rfl, if_neg hfails] at h
    cases h
  obtain ⟨n, hn, hcode⟩ := (Option.any_eq_true _ _).1 hholds
  rw [isResponseCode, Bool.and_eq_true, decide_eq_true_eq, decide_eq_true_eq] at hcode
  exact ⟨n, hn, hcode⟩

/-- **A unit without obstacles** responds with a response code. -/
theorem response_mem_range (h : obstacles c u = []) :
    1 ≤ u.graph.emptyTrace.response ∧ u.graph.emptyTrace.response ≤ 599 := by
  show 1 ≤ (((u.graph.settings.get? "response").map Located.value).bind Value.asNumber?).getD _ ∧
    (((u.graph.settings.get? "response").map Located.value).bind Value.asNumber?).getD _ ≤ 599
  cases hassigned : u.graph.settings.get? "response" with
  | none => decide
  | some v =>
    obtain ⟨n, hn, hrange⟩ := checkSetting_response (checkSetting_of_obstacles h hassigned)
    rw [Option.map_some, Option.bind_some, hn]
    exact hrange

end

/-! ### Rows of the table -/

namespace Response

/-- What may become of a request. -/
inductive Row where
  /-- The unit is executed. -/
  | executed
  /-- The unit is linted, and there are no errors. -/
  | clean
  /-- The unit is linted, and there are errors. -/
  | flawed
  /-- The text is refused. -/
  | unreadable
  /-- The unit is refused. -/
  | refused
  /-- A node fails. -/
  | failed

/-- When the row applies. -/
def Row.Applies (c : Configuration) (mode : Mode) (source : String) (row : Row) : Prop :=
  let readable := (parse c.budget .start source).result = .ok ()
  let u := SourceUnit.ofSource c source
  match row with
  | executed => readable ∧ mode = .app ∧ ¬Refused c u ∧ ∀ n ∈ u.graph.nodes, n.failure? = none
  | clean => readable ∧ mode = .lint ∧ Diagnostic.errors (lint c u).diagnostics = []
  | flawed => readable ∧ mode = .lint ∧ Diagnostic.errors (lint c u).diagnostics ≠ []
  | unreadable => ¬readable
  | refused => readable ∧ mode = .app ∧ Refused c u
  | failed => readable ∧ mode = .app ∧ ¬Refused c u ∧ ∃ n ∈ u.graph.nodes, n.failure? ≠ none

/-- The status, the body and the code that belong together in the row, where `chosen` is the response
that a unit sets for itself. -/
inductive Row.Shows (chosen : Int) : Row → Status → Body → Nat → Prop where
  | executed {t : Trace} (hresponse : t.response = chosen) (hlower : 1 ≤ chosen)
      (hupper : chosen ≤ 599) : Shows chosen .executed .ok (.trace t) chosen.toNat
  | clean {ds : List Diagnostic} {dot : String} (herrors : Diagnostic.errors ds = []) :
      Shows chosen .clean .ok (.findings ds (some dot)) 200
  | flawed {ds : List Diagnostic} {dot : String} (herrors : Diagnostic.errors ds ≠ []) :
      Shows chosen .flawed .diagnostics (.findings ds (some dot)) 400
  | unreadable {error : SyntaxError} : Shows chosen .unreadable .syntaxError (.refusal error) 400
  | refused {ds : List Diagnostic} (hne : ds ≠ []) (herrors : Diagnostic.errors ds = ds) :
      Shows chosen .refused .rejected (.findings ds none) 400
  | failed {node message : String} {t : Trace} :
      Shows chosen .failed .executionFailed (.failure (some node) message (some t)) 500

/-- An answer belongs to one row only. -/
theorem Row.Shows.unique {chosen : Int} {row other : Row} {status : Status} {body : Body}
    {code code' : Nat} (h : row.Shows chosen status body code)
    (h' : other.Shows chosen status body code') : other = row := by
  cases h <;> cases h' <;> rfl

section

variable {chosen : Int} {row : Row} {status : Status} {body : Body} {code : Nat}

theorem Row.Shows.code_eq_400_iff (h : row.Shows chosen status body code) :
    code = 400 ↔ row = .unreadable ∨ row = .refused ∨ row = .flawed ∨
      row = .executed ∧ chosen = 400 := by
  cases h with
  | executed => simp; omega
  | _ => simp

theorem Row.Shows.code_eq_500_iff (h : row.Shows chosen status body code) :
    code = 500 ↔ row = .failed ∨ row = .executed ∧ chosen = 500 := by
  cases h with
  | executed => simp; omega
  | _ => simp

theorem Row.Shows.code_executed (h : Row.Shows chosen .executed status body code) :
    (code : Int) = chosen ∧ 1 ≤ chosen ∧ chosen ≤ 599 := by
  cases h with
  | executed _ hlower hupper => exact ⟨Int.toNat_of_nonneg (by omega), hlower, hupper⟩

theorem Row.Shows.code_clean (h : Row.Shows chosen .clean status body code) : code = 200 := by
  cases h
  rfl

theorem Row.Shows.status_eq_ok_iff (h : row.Shows chosen status body code) :
    status = .ok ↔ ¬(row = .unreadable ∨ row = .refused ∨ row = .flawed ∨ row = .failed) := by
  cases h <;> simp

end

end Response

open Response

/-! ### Answers -/

section

variable {c : Configuration} {mode : Mode} {source : String} {g : Graph} {nodes : List Node}

/-- A text that is refused is not processed. -/
theorem processSource_unreadable {error : SyntaxError}
    (h : (parse c.budget .start source).result = .error error) :
    processSource c mode source = .error (.unreadable error source) := by
  have hread := Draft.ofText_of_error c.budget {} source h
  exact congrArg (Except.mapError (Failure.ofProcessing source)) (Session.run_of_error hread)

/-- The unit of a text that is read to its end is processed. -/
theorem processSource_readable (mode : Mode) (h : (parse c.budget .start source).result = .ok ()) :
    processSource c mode source = (((Behavior.ofMode mode c).process (SourceUnit.ofSource c source)).mapError
      ProcessingError.execution).mapError (Failure.ofProcessing source) := by
  have hread := Draft.ofText_of_ok c.budget {} source h
  rw [SourceUnit.ofSource, hread]
  exact congrArg (Except.mapError (Failure.ofProcessing source)) (Session.run_of_ok hread)

theorem wellFormed_ofSource (h : (parse c.budget .start source).result = .ok ()) :
    (SourceUnit.ofSource c source).graph.WellFormed := by
  rw [SourceUnit.ofSource, Draft.ofText_of_ok c.budget {} source h]
  exact wellFormed_ofEvents _ _

theorem handle_unreadable {error : SyntaxError}
    (h : (parse c.budget .start source).result = .error error) :
    handle c mode source = ⟨.syntaxError, .refusal error⟩ := by
  rw [handle, processSource_unreadable h]
  rfl

theorem handle_readable (mode : Mode) (h : (parse c.budget .start source).result = .ok ()) :
    (SourceUnit.ofSource c source).graph.WellFormed ∧
    handle c mode source = .ofResult ((((Behavior.ofMode mode c).process (SourceUnit.ofSource c source)).mapError
      ProcessingError.execution).mapError (Failure.ofProcessing source)) :=
  ⟨wellFormed_ofSource h, congrArg Response.ofResult (processSource_readable mode h)⟩

theorem handle_linted (h : (parse c.budget .start source).result = .ok ()) :
    let report := lint c (SourceUnit.ofSource c source)
    handle c .lint source =
      ⟨if report.hasErrors then .diagnostics else .ok, .findings report.diagnostics (some report.dot)⟩ :=
  (handle_readable .lint h).2

/-- **A unit that is refused** is answered with the errors, or else with the first cycle. -/
theorem handle_refused (h : (parse c.budget .start source).result = .ok ())
    (hrefused : Refused c (SourceUnit.ofSource c source)) :
    let u := SourceUnit.ofSource c source
    handle c .app source = ⟨.rejected, .findings (obstacles c u) none⟩ ∧ obstacles c u ≠ [] ∨
    ∃ path ∈ u.graph.cycles,
      handle c .app source = ⟨.rejected, .findings [(Fault.cycle path).toUnplaced] none⟩ := by
  intro u
  obtain ⟨hwell, hhandle⟩ := handle_readable .app h
  rw [hhandle]
  rw [Behavior.process_ofMode_app]
  rcases execute_outcomes c simulate hwell () with ⟨hobstacles, hexecuted⟩ |
    ⟨-, -, path, others, hcycles, hexecuted⟩ | ⟨hobstacles, hcycles, -⟩
  · left
    rw [hexecuted]
    exact ⟨rfl, hobstacles⟩
  · right
    rw [hexecuted]
    exact ⟨path, hcycles ▸ List.mem_cons_self, rfl⟩
  · rcases (refused_iff hwell).1 hrefused with hne | ⟨hallowed, hne⟩
    · exact absurd hobstacles hne
    · exact absurd (hcycles hallowed) hne

/-! #### Nodes that fail -/

theorem failure?_of_simulate_ok {n : Node} {stages : List Stage} {s s' : Unit}
    (h : simulate n stages s = (.ok (), s')) : n.failure? = none := by
  unfold simulate at h
  cases hfailure : n.failure? with
  | none => rfl
  | some message =>
    rw [hfailure] at h
    cases (Prod.mk.inj h).1

theorem failure?_of_simulate_error {n : Node} {stages : List Stage} {s s' : Unit} {message : String}
    (h : simulate n stages s = (.error message, s')) : n.failure? = some message := by
  unfold simulate at h
  cases hfailure : n.failure? with
  | none =>
    rw [hfailure] at h
    cases (Prod.mk.inj h).1
  | some found =>
    rw [hfailure] at h
    rw [Except.error.inj (Prod.mk.inj h).1]

/-- Nodes that pass ask for no failure. -/
theorem Passes.failure?_eq_none {s s' : Unit} (h : Passes simulate g s nodes s') :
    ∀ n ∈ nodes, n.failure? = none := by
  induction h with
  | nil => exact fun n hn => absurd hn List.not_mem_nil
  | cons hstep _ ih => exact List.forall_mem_cons.2 ⟨failure?_of_simulate_ok hstep, ih⟩

/-- A unit that is not refused is answered with what comes of running its nodes in order. -/
theorem handle_accepted (h : (parse c.budget .start source).result = .ok ())
    (haccepted : ¬Refused c (SourceUnit.ofSource c source)) :
    let u := SourceUnit.ofSource c source
    ∃ order, executionOrder c u.graph = .ok order ∧ order.Perm u.graph.nodes ∧
      (((∀ n ∈ order, n.failure? = none) ∧
          handle c .app source = ⟨.ok, .trace (u.graph.traceOf order)⟩) ∨
        ∃ before n behind message, order = before ++ n :: behind ∧
          (∀ m ∈ before, m.failure? = none) ∧ n.failure? = some message ∧
          handle c .app source =
            ⟨.executionFailed, .failure (some n.name) message (some (u.graph.traceOf before))⟩) := by
  intro u
  obtain ⟨hwell, hhandle⟩ := handle_readable .app h
  rw [refused_iff hwell] at haccepted
  rw [hhandle]
  rw [Behavior.process_ofMode_app]
  rcases execute_outcomes c simulate hwell () with ⟨hne, -⟩ |
    ⟨-, hallowed, path, others, hcycles, -⟩ | ⟨-, -, order, horder, hperm, houtcome⟩
  · exact absurd (.inl hne) haccepted
  · exact absurd (.inr ⟨hallowed, hcycles ▸ List.cons_ne_nil path others⟩) haccepted
  · refine ⟨order, horder, hperm, ?_⟩
    rcases houtcome with ⟨s, hpasses, hexecuted⟩ |
      ⟨before, n, behind, message, s, s', hsplit, hpasses, hfails, hexecuted⟩ <;> rw [hexecuted]
    · exact .inl ⟨hpasses.failure?_eq_none, rfl⟩
    · exact .inr ⟨before, n, behind, message, hsplit, hpasses.failure?_eq_none,
        failure?_of_simulate_error hfails, rfl⟩

/-- **A unit with a node that fails** is answered with the first of them in the order of execution, and
with the trace of the nodes before it. -/
theorem handle_failed (h : (parse c.budget .start source).result = .ok ())
    (haccepted : ¬Refused c (SourceUnit.ofSource c source))
    (hfails : ∃ n ∈ (SourceUnit.ofSource c source).graph.nodes, n.failure? ≠ none) :
    let u := SourceUnit.ofSource c source
    ∃ before n behind message, executionOrder c u.graph = .ok (before ++ n :: behind) ∧
      (∀ m ∈ before, m.failure? = none) ∧ n.failure? = some message ∧
      handle c .app source =
        ⟨.executionFailed, .failure (some n.name) message (some (u.graph.traceOf before))⟩ := by
  obtain ⟨order, horder, hperm, ⟨hpass, -⟩ | ⟨before, n, behind, message, rfl, hanswer⟩⟩ :=
    handle_accepted h haccepted
  · obtain ⟨n, hn, hfailure⟩ := hfails
    exact absurd (hpass n (hperm.mem_iff.2 hn)) hfailure
  · exact ⟨before, n, behind, message, horder, hanswer⟩

/-- **A unit without a node that fails** is answered with the trace of all its nodes. -/
theorem handle_executed (h : (parse c.budget .start source).result = .ok ())
    (haccepted : ¬Refused c (SourceUnit.ofSource c source))
    (hpass : ∀ n ∈ (SourceUnit.ofSource c source).graph.nodes, n.failure? = none) :
    let u := SourceUnit.ofSource c source
    ∃ order, executionOrder c u.graph = .ok order ∧ order.Perm u.graph.nodes ∧
      handle c .app source = ⟨.ok, .trace (u.graph.traceOf order)⟩ := by
  obtain ⟨order, horder, hperm, ⟨-, hanswer⟩ | ⟨before, n, behind, message, rfl, -, hfailure, -⟩⟩ :=
    handle_accepted h haccepted
  · exact ⟨order, horder, hperm, hanswer⟩
  · rw [hpass n (hperm.mem_iff.1 (List.mem_append_right before List.mem_cons_self))] at hfailure
    cases hfailure

end

section

variable {c : Configuration} {mode : Mode} {source : String}

/-! ### The table -/

/-- **Some row** applies to each request. -/
theorem exists_row (c : Configuration) (mode : Mode) (source : String) :
    ∃ row : Row, row.Applies c mode source := by
  by_cases hread : (parse c.budget .start source).result = .ok ()
  · cases mode with
    | lint =>
      by_cases herrors : Diagnostic.errors (lint c (SourceUnit.ofSource c source)).diagnostics = []
      · exact ⟨.clean, hread, rfl, herrors⟩
      · exact ⟨.flawed, hread, rfl, herrors⟩
    | app =>
      by_cases hrefused : Refused c (SourceUnit.ofSource c source)
      · exact ⟨.refused, hread, rfl, hrefused⟩
      · by_cases hfails : ∃ n ∈ (SourceUnit.ofSource c source).graph.nodes, n.failure? ≠ none
        · exact ⟨.failed, hread, rfl, hrefused, hfails⟩
        · exact ⟨.executed, hread, rfl, hrefused, fun n hn =>
            Classical.byContradiction fun hfailure => hfails ⟨n, hn, hfailure⟩⟩
  · exact ⟨.unreadable, hread⟩

theorem response_ofSource (h : (parse c.budget .start source).result = .ok ()) :
    (SourceUnit.ofSource c source).graph.emptyTrace.response =
      chosenResponse (settingsOf (parse c.budget .start source).events) := by
  rw [SourceUnit.ofSource, Draft.ofText_of_ok c.budget {} source h]
  exact emptyTrace_ofEvents _ _

/-- A trace with a response code is answered with that code. -/
theorem code_trace {t : Trace} (h : 1 ≤ t.response ∧ t.response ≤ 599) :
    (Response.mk .ok (.trace t)).code = t.response.toNat :=
  if_pos ⟨by omega, by omega⟩

/-- **A row that applies** is the one that the answer belongs to. -/
theorem Response.Row.Applies.shows {row : Row} (h : row.Applies c mode source) :
    let r := handle c mode source
    row.Shows (chosenResponse (settingsOf (parse c.budget .start source).events))
      r.status r.body r.code := by
  intro r
  cases row with
  | executed =>
    obtain ⟨hread, rfl, haccepted, hpass⟩ := h
    obtain ⟨order, -, -, hanswer⟩ := handle_executed hread haccepted hpass
    have hrange := response_mem_range (not_not.1 (not_or.1 haccepted).1)
    have hchosen := response_ofSource hread
    have hcode : r.code = _ := (congrArg code hanswer).trans (code_trace hrange)
    rw [hcode, show r = _ from hanswer]
    rw [hchosen] at hrange
    show Row.Shows _ _ _ _ (SourceUnit.ofSource c source).graph.emptyTrace.response.toNat
    rw [hchosen]
    exact .executed hchosen hrange.1 hrange.2
  | clean =>
    obtain ⟨hread, rfl, herrors⟩ := h
    have hnone : (lint c (SourceUnit.ofSource c source)).hasErrors = false := by
      rw [Report.hasErrors, Report.errorCount, herrors]
      rfl
    rw [show r = _ from handle_linted hread, hnone]
    exact .clean herrors
  | flawed =>
    obtain ⟨hread, rfl, herrors⟩ := h
    have hsome : (lint c (SourceUnit.ofSource c source)).hasErrors = true :=
      decide_eq_true (List.length_pos_iff.2 herrors)
    rw [show r = _ from handle_linted hread, hsome]
    exact .flawed herrors
  | unreadable =>
    cases hresult : (parse c.budget .start source).result with
    | ok done => exact absurd hresult h
    | error error =>
      rw [show r = _ from handle_unreadable hresult]
      exact .unreadable
  | refused =>
    obtain ⟨hread, rfl, hrefused⟩ := h
    rcases handle_refused hread hrefused with ⟨hanswer, hne⟩ | ⟨path, -, hanswer⟩
    · rw [show r = _ from hanswer]
      refine .refused hne ?_
      rw [obstacles, Diagnostic.errors, Diagnostic.errors, List.filter_filter]
      simp only [Bool.and_self]
    · rw [show r = _ from hanswer]
      exact .refused (List.cons_ne_nil _ _) rfl
  | failed =>
    obtain ⟨hread, rfl, haccepted, hfails⟩ := h
    obtain ⟨before, n, behind, message, -, -, -, hanswer⟩ := handle_failed hread haccepted hfails
    rw [show r = _ from hanswer]
    exact .failed

end

/-- **The answer to a request** tells what became of it.  One row of the table applies, and status, body
and code belong to that row together.

* The code is 400 if the text is refused, if the unit is refused, or if its report has errors; it is
  500 if a node fails.  A unit that is executed can choose these codes for itself; there is no other
  way to them.
* In all other cases the status says that the request was answered as asked.
* A unit that is executed is answered with the response that is assigned last, or else with the default.
  That is a response code, so the code is never replaced.
* A unit that is linted without errors is answered with 200.
* If a node fails, the answer has the first one in the order of execution, its message, and the trace
  of the nodes before it. -/
theorem handle_classified (c : Configuration) (mode : Mode) (source : String) :
    let r := handle c mode source
    let u := SourceUnit.ofSource c source
    let chosen := chosenResponse (settingsOf (parse c.budget .start source).events)
    let applies := Row.Applies c mode source
    (∃ row, applies row ∧ row.Shows chosen r.status r.body r.code ∧
      ∀ other, applies other → other = row) ∧
    (r.code = 400 ↔ applies .unreadable ∨ applies .refused ∨ applies .flawed ∨
      applies .executed ∧ chosen = 400) ∧
    (r.code = 500 ↔ applies .failed ∨ applies .executed ∧ chosen = 500) ∧
    (r.status = .ok ↔
      ¬(applies .unreadable ∨ applies .refused ∨ applies .flawed ∨ applies .failed)) ∧
    (applies .executed → (r.code : Int) = chosen ∧ 1 ≤ chosen ∧ chosen ≤ 599 ∧
      ∃ order, executionOrder c u.graph = .ok order ∧ r.body = .trace (u.graph.traceOf order) ∧
        (u.graph.traceOf order).response = chosen) ∧
    (applies .clean → r.code = 200) ∧
    (applies .failed → ∃ before n behind message,
      executionOrder c u.graph = .ok (before ++ n :: behind) ∧
      (∀ m ∈ before, m.failure? = none) ∧ n.failure? = some message ∧
      r.body = .failure (some n.name) message (some (u.graph.traceOf before))) := by
  intro r u chosen applies
  obtain ⟨row, happlies⟩ := exists_row c mode source
  have hshows : row.Shows chosen r.status r.body r.code := happlies.shows
  have hunique : ∀ other, applies other → other = row := fun other h => hshows.unique h.shows
  have hiff : ∀ other, applies other ↔ row = other := fun other =>
    ⟨fun h => (hunique other h).symm, fun h => h ▸ happlies⟩
  refine ⟨⟨row, happlies, hshows, hunique⟩, ?_, ?_, ?_, fun h => ?_, fun h => ?_, fun h => ?_⟩
  · simp only [hiff]
    exact hshows.code_eq_400_iff
  · simp only [hiff]
    exact hshows.code_eq_500_iff
  · simp only [hiff]
    exact hshows.status_eq_ok_iff
  · obtain ⟨hcode, hlower, hupper⟩ := Row.Shows.code_executed h.shows
    obtain ⟨hread, rfl, haccepted, hpass⟩ := h
    obtain ⟨order, horder, -, hanswer⟩ := handle_executed hread haccepted hpass
    exact ⟨hcode, hlower, hupper, order, horder, congrArg Response.body hanswer,
      response_ofSource hread⟩
  · exact Row.Shows.code_clean h.shows
  · obtain ⟨hread, rfl, haccepted, hfails⟩ := h
    obtain ⟨before, n, behind, message, horder, hpass, hfailure, hanswer⟩ :=
      handle_failed hread haccepted hfails
    exact ⟨before, n, behind, message, horder, hpass, hfailure, congrArg Response.body hanswer⟩

/-- A unit that is executed can answer with 400 like one that is refused. -/
theorem handle_chosen_400 :
    let source := "response = 400; .a [];"
    let applies := Row.Applies {} .app source
    ¬((handle {} .app source).code = 400 ↔
      applies .unreadable ∨ applies .refused ∨ applies .flawed) := by
  intro source applies hiff
  have hanswer : (handle {} .app source).code = 400 ∧ (handle {} .app source).status = .ok := by
    decide +kernel
  have hok : ∀ row, applies row → ¬(row = .unreadable ∨ row = .refused ∨ row = .flawed ∨
      row = .failed) := fun row h => h.shows.status_eq_ok_iff.1 hanswer.2
  rcases hiff.1 hanswer.1 with h | h | h <;> exact hok _ h (by simp)

end CallGraph
