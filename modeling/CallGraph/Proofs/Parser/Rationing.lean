import CallGraph.Proofs.Grammar.Anchor
import CallGraph.Proofs.Parser.Consistency
import CallGraph.Proofs.Parser.Handover
import CallGraph.Proofs.Parser.Termination

/-!
# Reports are rationed

A token that is refused is reported only if the budget allows it, and not soon after another one has been
refused.  The parser keeps two counters for this.

* `refusals` — how many refused tokens have been reported;
* `StepKind.takenSince` — how many tokens have been taken since the last recovery;
* `Machine.Step.counters` — **what a step does** to the counters of the parser;
* `Machine.Rationed`, `Machine.Rationed.step` — what the counters say about the steps so far, and that each
  step keeps it true;
* `Machine.Rationed.reported`, `Machine.Rationed.silent` — so when a recovery is reported, and when it is not;
* `Machine.Walk.rationed` — so it is true behind any number of steps;
* `reports_rationed` — what this says about the reports of **every parse**, and in which order they stand.
-/

namespace CallGraph

/-- The report is about a token that cannot stand where it does. -/
def Diagnostic.IsRefusal (d : Diagnostic) : Prop := d.code = some .unexpectedToken

instance (d : Diagnostic) : Decidable d.IsRefusal := inferInstanceAs (Decidable (_ = _))

/-- How many tokens that cannot stand where they do have been reported. -/
def refusals (events : List Event) : Nat := (reportsOf events).countP fun d => d.IsRefusal

/-- How many tokens have been taken since the last recovery. -/
def StepKind.takenSince (kinds : List StepKind) : Nat :=
  (kinds.reverse.takeWhile (· ≠ .recovery)).count .shift

section

variable {kinds : List StepKind} {kind : StepKind} {events more : List Event}

theorem refusals_append (events more : List Event) :
    refusals (events ++ more) = refusals events + refusals more := by
  rw [refusals, reportsOf_append, List.countP_append]
  rfl

theorem StepKind.takenSince_recovery (kinds : List StepKind) :
    takenSince (kinds ++ [.recovery]) = 0 := by
  unfold takenSince
  rw [List.reverse_append, List.reverse_singleton, List.singleton_append,
    List.takeWhile_cons_of_neg (by decide), List.count_nil]

theorem StepKind.takenSince_concat (h : kind ≠ .recovery) :
    takenSince (kinds ++ [kind]) = takenSince kinds + if kind = .shift then 1 else 0 := by
  unfold takenSince
  rw [List.reverse_append, List.reverse_singleton, List.singleton_append,
    List.takeWhile_cons_of_pos (by simpa using h), List.count_cons]
  simp only [beq_iff_eq]

end

/-! ### What a step does to the counters -/

theorem refusals_lexical (token : Token) (what : LexicalError) :
    refusals [.report (SyntaxError.toDiagnostic ⟨token, .lexical what⟩)] = 0 := by
  cases what <;> rfl

theorem refusals_unexpected {token : Token} (hend : token.kind ≠ .endOfInput) (expected : List Terminal) :
    refusals [.report (SyntaxError.toDiagnostic ⟨token, .unexpected expected⟩)] = 1 := by
  have hcode : SyntaxError.code ⟨token, .unexpected expected⟩ = .unexpectedToken := by
    have hisEnd : ¬token.isEnd = true := by simpa [Token.isEnd] using hend
    exact if_neg hisEnd
  have hrefusal : (SyntaxError.toDiagnostic ⟨token, .unexpected expected⟩).IsRefusal :=
    congrArg some hcode
  exact List.countP_cons_of_pos (by simpa using hrefusal)

section

variable {budget : Nat} {last : Token} {m m' : Machine} {tokens tokens' : List Token}
  {kinds : List StepKind} {events : List Event}

/-- **What a step does to the counters.**  A recovery makes the parser quiet.  It is reported and charged
if the parser was not quiet before, and the budget is not spent.  Of the other steps only a token that is
taken counts, and none reports a refused token. -/
theorem Machine.Step.counters (h : Machine.Step budget last m tokens events m' tokens')
    (hend : ∀ token ∈ tokens, token.kind ≠ .endOfInput) :
    (m.nextKind last tokens = .recovery ∧ m'.quiet = quietTokens ∧
      (0 < m.quiet ∧ refusals events = 0 ∧ m'.recoveries = m.recoveries ∨
        m.quiet = 0 ∧ refusals events = 1 ∧ m'.recoveries = m.recoveries + 1 ∧
          m.recoveries < budget)) ∨
    (m.nextKind last tokens ≠ .recovery ∧ refusals events = 0 ∧ m'.recoveries = m.recoveries ∧
      m'.quiet = m.quiet - if m.nextKind last tokens = .shift then 1 else 0) := by
  cases h with
  | @mistake token _ what hwhat =>
    rw [nextKind_of_mistake hwhat]
    exact .inr ⟨by decide, refusals_lexical token what, rfl, rfl⟩
  | skip hm =>
    rw [nextKind_of_discarding hm]
    exact .inr ⟨by decide, rfl, rfl, rfl⟩
  | resume hm =>
    rw [nextKind_of_discarding hm]
    exact .inr ⟨by decide, rfl, rfl, rfl⟩
  | reduce hm ht haction hreduce =>
    rw [nextKind_of_action hm ht, haction, Action.stepKind]
    refine .inr ⟨by decide, ?_, rfl, rfl⟩
    rw [refusals, reduce_report hreduce]
    rfl
  | shift hm ht haction =>
    rw [nextKind_of_shift hm ht haction]
    exact .inr ⟨by decide, rfl, rfl, rfl⟩
  | @recover _ token _ t _ _ hm ht haction hverdict hrecover =>
    rw [nextKind_of_refused hm ht haction hverdict]
    rcases m.recover_cases budget token t with ⟨hcase, -⟩ | ⟨hcase, -, hquiet⟩ |
      ⟨hcase, -, hquiet, hbudget⟩ <;> rw [hcase] at hrecover
    · cases hrecover
    · obtain ⟨rfl, hm'⟩ := Prod.mk.inj hrecover
      obtain rfl := Except.ok.inj hm'
      exact .inl ⟨rfl, rfl, .inl ⟨hquiet, rfl, rfl⟩⟩
    · obtain ⟨rfl, hm'⟩ := Prod.mk.inj hrecover
      obtain rfl := Except.ok.inj hm'
      have hrefusals := refusals_unexpected (hend token List.mem_cons_self) (topState m.stack).expected
      exact .inl ⟨rfl, rfl, .inr ⟨hquiet, hrefusals, rfl, hbudget⟩⟩

/-- A step hands over one event at most. -/
theorem Machine.Step.events_cases (h : Machine.Step budget last m tokens events m' tokens') :
    events = [] ∨ ∃ event, events = [event] := by
  cases h with
  | mistake => exact .inr ⟨_, rfl⟩
  | skip => exact .inl rfl
  | resume => exact .inl rfl
  | @reduce _ _ _ _ event =>
    cases event with
    | none => exact .inl rfl
    | some event => exact .inr ⟨event, rfl⟩
  | shift => exact .inl rfl
  | @recover _ token _ t _ _ _ _ _ _ hrecover =>
    rcases m.recover_cases budget token t with ⟨hcase, -⟩ | ⟨hcase, -⟩ | ⟨hcase, -⟩ <;>
      rw [hcase] at hrecover
    · cases hrecover
    · exact .inl (Prod.mk.inj hrecover).1.symm
    · exact .inr ⟨_, (Prod.mk.inj hrecover).1.symm⟩

/-! ### What the counters say -/

/-- The counters of a parser behind steps of these kinds, which have handed over these events. -/
structure Machine.Rationed (budget : Nat) (kinds : List StepKind) (events : List Event) (m : Machine) :
    Prop where
  /-- Each refused token that has been reported has been charged. -/
  recoveries_eq : m.recoveries = refusals events
  /-- The budget is kept. -/
  recoveries_le : m.recoveries ≤ budget
  /-- The first recovery of all is charged. -/
  recovered_iff : .recovery ∈ kinds ↔ 0 < m.recoveries
  /-- What is missing for the parser to report again. -/
  quiet_eq : m.quiet = if .recovery ∈ kinds then quietTokens - StepKind.takenSince kinds else 0

theorem rationed_initial (budget : Nat) (origin : Location) :
    (Machine.initial origin).Rationed budget [] [] where
  recoveries_eq := rfl
  recoveries_le := Nat.zero_le _
  recovered_iff := iff_of_false List.not_mem_nil (Nat.lt_irrefl 0)
  quiet_eq := rfl

/-- **Each step** keeps the counters true. -/
theorem Machine.Rationed.step (hm : m.Rationed budget kinds events) {handed : List Event}
    (h : Machine.Step budget last m tokens handed m' tokens')
    (hend : ∀ token ∈ tokens, token.kind ≠ .endOfInput) :
    m'.Rationed budget (kinds ++ [m.nextKind last tokens]) (events ++ handed) := by
  have hrecoveries := hm.recoveries_eq
  have hle := hm.recoveries_le
  have hquiet := hm.quiet_eq
  rcases h.counters hend with ⟨hkind, hquiet', hreport⟩ | ⟨hkind, hreport, hsame, hquiet'⟩
  · have hmem : StepKind.recovery ∈ kinds ++ [m.nextKind last tokens] := by
      rw [hkind]
      exact List.mem_append_right _ List.mem_cons_self
    have hrationed : m'.recoveries = refusals (events ++ handed) ∧ m'.recoveries ≤ budget ∧
        0 < m'.recoveries := by
      rw [refusals_append]
      rcases hreport with ⟨hpos, hnone, hsame⟩ | ⟨-, hone, hmore, hlt⟩
      · -- The parser is quiet only because it has recovered before.
        have hrecovered : StepKind.recovery ∈ kinds := by
          by_contra hnot
          rw [if_neg hnot] at hquiet
          omega
        have hcharged := hm.recovered_iff.1 hrecovered
        omega
      · omega
    refine ⟨hrationed.1, hrationed.2.1, iff_of_true hmem hrationed.2.2, ?_⟩
    rw [if_pos hmem, hkind, StepKind.takenSince_recovery, hquiet', Nat.sub_zero]
  · have hmem : StepKind.recovery ∈ kinds ++ [m.nextKind last tokens] ↔ .recovery ∈ kinds := by
      rw [List.mem_append, List.mem_singleton]
      exact or_iff_left hkind.symm
    refine ⟨?_, hsame ▸ hle, ?_, ?_⟩
    · rw [refusals_append, hreport, hsame]
      exact hrecoveries
    · rw [hmem, hsame]
      exact hm.recovered_iff
    · rw [hquiet', hquiet, StepKind.takenSince_concat hkind]
      by_cases hrecovered : StepKind.recovery ∈ kinds
      · rw [if_pos hrecovered, if_pos (hmem.2 hrecovered), Nat.sub_add_eq]
      · rw [if_neg hrecovered, if_neg fun h => hrecovered (hmem.1 h), Nat.zero_sub]

/-- **A refused token is reported** because the parser recovers from it.  There has been another such report
if and only if the parser has recovered before, and then it has taken three tokens since. -/
theorem Machine.Rationed.reported (hm : m.Rationed budget kinds events) {d : Diagnostic}
    (h : Machine.Step budget last m tokens [.report d] m' tokens')
    (hend : ∀ token ∈ tokens, token.kind ≠ .endOfInput) (hd : d.IsRefusal) :
    m.nextKind last tokens = .recovery ∧
      (.recovery ∈ kinds ↔ ∃ other ∈ reportsOf events, other.IsRefusal) ∧
      (.recovery ∈ kinds → 3 ≤ StepKind.takenSince kinds) := by
  have hone : refusals [.report d] = 1 := List.countP_cons_of_pos (by simpa using hd)
  have hquiet := hm.quiet_eq
  rcases h.counters hend with ⟨hkind, -, ⟨-, hnone, -⟩ | ⟨hzero, -⟩⟩ | ⟨-, hnone, -⟩
  · omega
  · refine ⟨hkind, ?_, fun hrecovered => ?_⟩
    · rw [hm.recovered_iff, hm.recoveries_eq, refusals, List.countP_pos_iff]
      simp only [decide_eq_true_eq]
    · rw [if_pos hrecovered, hzero] at hquiet
      exact Nat.sub_eq_zero_iff_le.1 hquiet.symm
  · omega

/-- **A recovery is silent** only if fewer than three tokens have been taken since the last one. -/
theorem Machine.Rationed.silent (hm : m.Rationed budget kinds events)
    (h : Machine.Step budget last m tokens [] m' tokens')
    (hend : ∀ token ∈ tokens, token.kind ≠ .endOfInput) (hkind : m.nextKind last tokens = .recovery) :
    .recovery ∈ kinds ∧ StepKind.takenSince kinds < 3 := by
  have hquiet := hm.quiet_eq
  rcases h.counters hend with ⟨-, -, ⟨hpos, -⟩ | ⟨-, hone, -⟩⟩ | ⟨hother, -⟩
  · have hrecovered : StepKind.recovery ∈ kinds := by
      by_contra hnot
      rw [if_neg hnot] at hquiet
      omega
    rw [if_pos hrecovered, quietTokens] at hquiet
    exact ⟨hrecovered, by omega⟩
  · cases hone
  · exact absurd hkind hother

namespace Machine.Walk

/-- **Any number of steps** keep the counters true. -/
theorem rationed (h : Machine.Walk budget last m tokens kinds events m' tokens')
    (hend : ∀ token ∈ tokens, token.kind ≠ .endOfInput) {before : List StepKind} {earlier : List Event}
    (hm : m.Rationed budget before earlier) :
    m'.Rationed budget (before ++ kinds) (earlier ++ events) ∧
      ∀ token ∈ tokens', token.kind ≠ .endOfInput := by
  induction h generalizing before earlier with
  | refl =>
    rw [List.append_nil, List.append_nil]
    exact ⟨hm, hend⟩
  | @head m _ _ tokens tokens' _ kinds events more hstep _ ih =>
    have hend' : ∀ token ∈ tokens', token.kind ≠ .endOfInput := by
      rcases hstep.cases_kind with ⟨-, rfl, -⟩ | ⟨-, ⟨token, rfl⟩, -⟩
      · exact hend
      · exact (List.forall_mem_cons.1 hend).2
    have hrationed := ih hend' (hm.step hstep hend)
    rw [List.append_assoc, List.singleton_append, List.append_assoc] at hrationed
    exact hrationed

/-- Each event is handed over by a step, behind those that have handed over the earlier ones. -/
theorem exists_step (h : Machine.Walk budget last m tokens kinds events m' tokens')
    {earlier later : List Event} {event : Event} (hevents : events = earlier ++ event :: later) :
    ∃ kinds m₁ ahead m₂ ahead', Machine.Walk budget last m tokens kinds earlier m₁ ahead ∧
      Machine.Step budget last m₁ ahead [event] m₂ ahead' := by
  induction h generalizing earlier with
  | refl => exact absurd hevents.symm (List.append_ne_nil_of_right_ne_nil _ (List.cons_ne_nil _ _))
  | @head m m' _ tokens tokens' _ _ handed more hstep _ ih =>
    rcases hstep.events_cases with rfl | ⟨first, rfl⟩
    · obtain ⟨kinds, m₁, ahead, m₂, ahead', hwalk, hlast⟩ := ih hevents
      exact ⟨_, m₁, ahead, m₂, ahead', .head hstep hwalk, hlast⟩
    cases earlier with
    | nil =>
      obtain ⟨rfl, -⟩ := List.cons.inj hevents
      exact ⟨[], m, tokens, m', tokens', .refl, hstep⟩
    | cons other earlier =>
      obtain ⟨rfl, hmore⟩ := List.cons.inj hevents
      obtain ⟨kinds, m₁, ahead, m₂, ahead', hwalk, hlast⟩ := ih hmore
      exact ⟨_, m₁, ahead, m₂, ahead', .head hstep hwalk, hlast⟩

end Machine.Walk

end

/-! ### All of it -/

/-- A report is placed at its token. -/
theorem SyntaxError.span?_toDiagnostic (error : SyntaxError) :
    error.toDiagnostic.span? = some error.token.span := rfl

/-- Reports about tokens stand in the order of their places. -/
theorem ReportsAt.pairwise {tokens : List Token} {findings : List Diagnostic}
    (h : ReportsAt tokens findings) (hvisible : Visible tokens) (horder : InOrder tokens) :
    findings.Pairwise fun d d' => ∃ s s' : Span, d.span? = some s ∧ d'.span? = some s' ∧
      s.start < s.stop ∧ s.stop ≤ s'.start := by
  obtain ⟨errors, rfl, hsub⟩ := h
  have hpairs := List.pairwise_map.1 (List.Pairwise.sublist hsub horder)
  refine List.pairwise_map.2 (List.Pairwise.imp_of_mem (fun {a b} ha _ hab => ?_) hpairs)
  have htoken := hvisible a.token (hsub.subset (List.mem_map_of_mem ha))
  exact ⟨_, _, a.span?_toDiagnostic, b.span?_toDiagnostic, Span.start_lt_stop htoken, hab⟩

/-- **Reports are rationed**, whatever the text, the place where it starts and the budget, however often
the parser has been used before, and wherever it then starts.

* The refused tokens that are reported are those that are charged, and the budget is kept.
* Each such report is due to a recovery.  If there has been another one before, then the parser has
  recovered before, and it has taken at least three tokens since the last recovery, reported or not.
* A recovery is not reported only if fewer tokens than that have been taken since the last one.
* All reports, of refused tokens and of mistakes within tokens, stand in the order of their places, and
  none starts before the one before it stops. -/
theorem reports_rationed (budget : Nat) (origin : Location) (source : String)
    (here : Nat → Location) (times : Nat) :
    let scanned := (Scanner.startingAt origin source).tokens
    let tokens := tokensAhead budget here scanned.1 scanned.2 times
    let initial := Machine.initial (here times)
    let parsed := parseTokens budget (here times) tokens scanned.2
    ((reportsOf parsed.events).countP (fun d => d.IsRefusal) = parsed.recoveries ∧
      parsed.recoveries ≤ budget) ∧
    (∀ earlier d later, parsed.events = earlier ++ .report d :: later → d.IsRefusal →
      ∃ kinds m rest m' rest', Machine.Walk budget scanned.2 initial tokens kinds earlier m rest ∧
        Machine.Step budget scanned.2 m rest [.report d] m' rest' ∧
        m.nextKind scanned.2 rest = .recovery ∧
        (.recovery ∈ kinds ↔ ∃ other ∈ reportsOf earlier, other.IsRefusal) ∧
        (.recovery ∈ kinds → 3 ≤ StepKind.takenSince kinds)) ∧
    (∀ kinds events m rest m' rest', Machine.Walk budget scanned.2 initial tokens kinds events m rest →
      Machine.Step budget scanned.2 m rest [] m' rest' → m.nextKind scanned.2 rest = .recovery →
      .recovery ∈ kinds ∧ StepKind.takenSince kinds < 3) ∧
    (reportsOf parsed.events).Pairwise fun d d' => ∃ s s' : Span,
      d.span? = some s ∧ d'.span? = some s' ∧ s.start < s.stop ∧ s.stop ≤ s'.start := by
  intro scanned tokens initial parsed
  have hlast : scanned.2.kind = .endOfInput := (Scanner.startingAt origin source).kind_last
  have hlayout := (Scanner.startingAt origin source).layout
  have hsuffix : tokens <:+ scanned.1 := tokensAhead_suffix budget here scanned.1 scanned.2 times
  have hvisible : Visible tokens := fun token htoken => hlayout.visible token (hsuffix.subset htoken)
  have horder : InOrder tokens := List.Pairwise.sublist hsuffix.sublist hlayout.ordered
  have hend : ∀ token ∈ tokens, token.kind ≠ .endOfInput := fun token htoken =>
    (Scanner.startingAt origin source).kind_ne_endOfInput token (hsuffix.subset htoken)
  have hrationed : ∀ {kinds events m rest},
      Machine.Walk budget scanned.2 initial tokens kinds events m rest →
      m.Rationed budget kinds events ∧ ∀ token ∈ rest, token.kind ≠ .endOfInput :=
    fun hwalk => hwalk.rationed hend (rationed_initial budget _)
  obtain ⟨m, rest, hsteps, hends⟩ := exists_steps_of_run hlast budget initial tokens
  have hrecoveries : parsed.recoveries = m.recoveries := by
    have hrun := hsteps.run_eq hlast
    rw [hends.run_eq hlast] at hrun
    exact congrArg Parse.recoveries hrun
  obtain ⟨kinds, hwalk⟩ := Machine.Walk.exists_of_steps hsteps
  have hall := (hrationed hwalk).1
  refine ⟨⟨?_, hrecoveries ▸ hall.recoveries_le⟩, fun earlier d later hevents hd => ?_,
    fun kinds events m rest m' rest' hwalk hstep hkind => ?_, ?_⟩
  · rw [hrecoveries]
    exact hall.recoveries_eq.symm
  · obtain ⟨kinds, m, rest, m', rest', hbefore, hstep⟩ := hwalk.exists_step hevents
    obtain ⟨hm, hrest⟩ := hrationed hbefore
    exact ⟨kinds, m, rest, m', rest', hbefore, hstep, hm.reported hstep hrest hd⟩
  · obtain ⟨hm, hrest⟩ := hrationed hwalk
    exact hm.silent hstep hrest hkind
  · have hhands : HandsOver initial [] tokens scanned.2 parsed :=
      (run_handsOver hlast hvisible).1 initial [] [] rfl (awaits_initial _) (List.forall_mem_nil _)
    exact hhands.reports.pairwise hvisible horder

end CallGraph
