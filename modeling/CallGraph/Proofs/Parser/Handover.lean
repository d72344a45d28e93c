import CallGraph.Proofs.Parser.Recovery
import CallGraph.Proofs.Parser.Step

/-!
# What a parser hands over

Whether a text is read to its end or refused, a parser hands over statements that it has read and
reports about tokens that it has refused.

* `ReportsAt` — reports about tokens of a list, no two about the same one;
* `reportsOf_settle` — reductions report nothing;
* `Told`, `Machine.exists_told`, `feed_told` — **the step**: what any parser has to say on one token is about
  that token, and the statements that it hands over are those that are awaited;
* `HandsOver` — what a run hands over;
* `parse_handsOver` — every run does, whatever the text and the budget.
-/

namespace CallGraph

/-- The finding, if it is a report. -/
def Event.report? : Event → Option Diagnostic
  | .report finding => some finding
  | _ => none

/-- The reports among the events. -/
def reportsOf (events : List Event) : List Diagnostic := events.filterMap Event.report?

/-- The findings report errors at tokens of the list, in their order and no two at the same one. -/
def ReportsAt (tokens : List Token) (findings : List Diagnostic) : Prop :=
  ∃ errors : List SyntaxError, findings = errors.map SyntaxError.toDiagnostic ∧
    (errors.map SyntaxError.token).Sublist tokens

theorem reportsOf_append (events others : List Event) :
    reportsOf (events ++ others) = reportsOf events ++ reportsOf others :=
  List.filterMap_append

/-- There are no reports among statements. -/
theorem reportsOf_eq_nil {events : List Event} (h : statementsOf events = events) :
    reportsOf events = [] := by
  rw [reportsOf, List.filterMap_eq_nil_iff]
  intro event hevent
  have hstatement := List.filter_eq_self.1 h event hevent
  cases event with
  | report finding => cases hstatement
  | _ => rfl

/-- A rule completes statements and reports nothing. -/
theorem Rule.meaning?_report {rule : Rule} {children : List Meaning} {span : Span} {meaning : Meaning}
    {event : Option Event} (h : rule.meaning? children span = some (meaning, event)) :
    reportsOf event.toList = [] := by
  unfold Rule.meaning? at h
  split at h <;> cases h <;> rfl

theorem reduce_report {rule : Rule} {here : Location} {stack stack' : List Frame}
    {event : Option Event} (h : reduce rule here stack = .ok (stack', event)) :
    reportsOf event.toList = [] := by
  obtain ⟨_, _, _, _, _, -, hmeaning, -, -⟩ := exists_of_reduce h
  exact Rule.meaning?_report hmeaning

/-- Nothing is reported by reductions. -/
theorem reportsOf_settle (t : Terminal) (here : Location) (stack : List Frame) :
    reportsOf (settle t here stack).1 = [] := by
  fun_induction settle t here stack with
  | case1 => rfl
  | case2 => rfl
  | case3 => rfl
  | case4 => rfl
  | case5 stack rule haction stack' event hreduce events result hsettle ih =>
    rw [hsettle] at ih
    rw [reportsOf_append, reduce_report hreduce, ih]
    rfl

theorem reportsAt_nil (tokens : List Token) : ReportsAt tokens [] :=
  ⟨[], rfl, List.nil_sublist _⟩

theorem reportsAt_singleton (error : SyntaxError) : ReportsAt [error.token] [error.toDiagnostic] :=
  ⟨[error], rfl, List.Sublist.refl _⟩

theorem ReportsAt.append {tokens others : List Token} {findings more : List Diagnostic}
    (h : ReportsAt tokens findings) (h' : ReportsAt others more) :
    ReportsAt (tokens ++ others) (findings ++ more) := by
  obtain ⟨errors, rfl, hsub⟩ := h
  obtain ⟨errors', rfl, hsub'⟩ := h'
  refine ⟨errors ++ errors', List.map_append.symm, ?_⟩
  rw [List.map_append]
  exact hsub.append hsub'

/-! ### One token -/

/-- What is handed over on account of a token, where the statements `awaited` are complete. -/
structure Told (m : Machine) (token : Token) (awaited handed : List Event)
    (result : Except SyntaxError Machine) : Prop where
  /-- The statements are those awaited, or none. -/
  statements : statementsOf handed = [] ∨ statementsOf handed = awaited
  /-- At most the token is reported. -/
  reports : ReportsAt [token] (reportsOf handed)
  /-- If the parser gives up, it is because of the token. -/
  error : ∀ error, result = .error error → error.token = token
  /-- If it begins to discard tokens, it is because of the token. -/
  discarding : ∀ m' error, result = .ok m' → m'.discarding = some error →
    error.token = token ∨ m.discarding = some error

section

variable {budget : Nat} {m : Machine} {begun : List Token} {awaited : List Event}
  {token last : Token} {t : Terminal}

theorem Machine.recover_told (budget : Nat) (m : Machine) (token : Token) (t : Terminal) :
    Told m token [] (m.recover budget token t).1 (m.recover budget token t).2 := by
  have hunwound : ∀ error, (m.unwound token t).discarding = some error →
      error.token = token ∨ m.discarding = some error := by
    intro error herror
    rw [eq_refusal_of_unwound herror]
    exact .inl rfl
  rcases m.recover_cases budget token t with ⟨hcase, -⟩ | ⟨hcase, -⟩ | ⟨hcase, -⟩ <;> rw [hcase]
  · exact ⟨.inl rfl, reportsAt_nil _, fun _ h => Except.error.inj h ▸ rfl, (fun _ _ h => by cases h)⟩
  · refine ⟨.inl rfl, reportsAt_nil _, (fun _ h => by cases h), fun m' error h hm' => ?_⟩
    obtain rfl := Except.ok.inj h
    exact hunwound error hm'
  · refine ⟨.inl rfl, reportsAt_singleton _, (fun _ h => by cases h), fun m' error h hm' => ?_⟩
    obtain rfl := Except.ok.inj h
    exact hunwound error hm'

/-- A token that is a mistake is reported, or the parser gives up. -/
theorem feed_told_mistake {mistake : LexicalError} (ht : token.kind.terminal = .error mistake)
    (budget : Nat) (m : Machine) (awaited : List Event) :
    Told m token awaited (m.feed budget token).1 (m.feed budget token).2 := by
  rw [Machine.feed_of_mistake ht]
  by_cases hbudget : budget = 0
  · rw [if_pos hbudget]
    exact ⟨.inl rfl, reportsAt_nil _, fun _ h => Except.error.inj h ▸ rfl,
      (fun _ _ h => by cases h)⟩
  · rw [if_neg hbudget]
    refine ⟨.inl rfl, reportsAt_singleton _, (fun _ h => by cases h), fun m' error h hm' => ?_⟩
    obtain rfl := Except.ok.inj h
    exact .inr hm'

/-- While tokens are discarded, nothing else is begun. -/
theorem feed_told_discarding (hm : m.discarding ≠ none) (ht : token.kind.terminal = .ok t)
    (budget : Nat) (awaited : List Event) :
    Told m token awaited (m.feed budget token).1 (m.feed budget token).2 := by
  obtain ⟨error, hdiscarding⟩ := Option.ne_none_iff_exists'.1 hm
  rw [Machine.feed_of_discarding hdiscarding ht]
  refine ⟨.inl rfl, reportsAt_nil _, (fun _ h => by cases h), fun m' other h hm' => ?_⟩
  obtain rfl := Except.ok.inj h
  by_cases hends : endsDiscarding t = true
  · simp [hends] at hm'
  · simp only [hends, Bool.false_eq_true, if_false] at hm'
    exact .inr hm'

/-- **Whatever a parser has to say on a token** is about this token, whether or not the parser can be in
such a state. -/
theorem Machine.exists_told (budget : Nat) (m : Machine) (token : Token) :
    ∃ awaited, Told m token awaited (m.feed budget token).1 (m.feed budget token).2 := by
  cases ht : token.kind.terminal with
  | error mistake => exact ⟨[], feed_told_mistake ht budget m []⟩
  | ok t =>
    cases hm : m.discarding with
    | some error => exact ⟨[], feed_told_discarding (hm ▸ Option.some_ne_none error) ht budget []⟩
    | none =>
      have hreports := reportsOf_settle t token.span.location m.stack
      refine ⟨statementsOf (m.feed budget token).1, ?_⟩
      rcases hsettle : settle t token.span.location m.stack with ⟨events, what | ⟨stack', verdict⟩⟩ <;>
        rw [hsettle] at hreports
      · rw [feed_of_inconsistent hm ht hsettle]
        refine ⟨.inr rfl, ?_, fun _ h => Except.error.inj h ▸ rfl, (fun _ _ h => by cases h)⟩
        exact hreports ▸ reportsAt_nil _
      by_cases hverdict : ∃ next, verdict = .shift next
      · obtain ⟨next, rfl⟩ := hverdict
        rw [feed_shift hm ht hsettle]
        refine ⟨.inr rfl, hreports ▸ reportsAt_nil _, (fun _ h => by cases h), fun m' error h hm' => ?_⟩
        obtain rfl := Except.ok.inj h
        exact .inr hm'
      · rw [feed_refused hm ht hsettle (not_exists.1 hverdict)]
        have htold := recover_told budget { m with stack := stack' } token t
        refine ⟨.inr rfl, ?_, htold.error, htold.discarding⟩
        rw [reportsOf_append, hreports]
        exact htold.reports

/-- **One token** is told about, and the awaited statements are handed over. -/
theorem feed_told (hm : m.discarding = none) (h : Awaits m.stack begun awaited)
    (hawaited : statementsOf awaited = awaited) (budget : Nat) (token : Token) :
    Told m token awaited (m.feed budget token).1 (m.feed budget token).2 := by
  obtain ⟨_, htold⟩ := m.exists_told budget token
  refine ⟨?_, htold.reports, htold.error, htold.discarding⟩
  cases ht : token.kind.terminal with
  | error mistake => exact (feed_told_mistake ht budget m awaited).statements
  | ok t =>
    obtain ⟨base, stack', pieces, verdict, hhalts, hsettle⟩ := h token t ht
    refine .inr ?_
    by_cases hverdict : ∃ next, verdict = .shift next
    · obtain ⟨next, rfl⟩ := hverdict
      rw [Machine.feed_shift hm ht hsettle]
      exact hawaited
    · rw [Machine.feed_refused hm ht hsettle (not_exists.1 hverdict)]
      have hrecovery := (Machine.recover_told budget { m with stack := stack' } token t).statements
      rw [statementsOf_append, hawaited, hrecovery.elim id id, List.append_nil]

end

/-! ### The run -/

/-- What a run over some tokens hands over, where the tokens `before` have been read already. -/
structure HandsOver (m : Machine) (before tokens : List Token) (last : Token) (parsed : Parse) :
    Prop where
  /-- The statements are made of tokens, each of which belongs to at most one. -/
  statements : ∃ ds : List (Derivation (.nonterminal .statement)),
    statementsOf parsed.events = ds.flatMap Derivation.events ∧
      (ds.flatMap Derivation.word).Sublist (before ++ tokens)
  /-- The reports are about tokens. -/
  reports : ReportsAt tokens (reportsOf parsed.events)
  /-- If the text is refused, it is because of a token. -/
  error : ∀ error, parsed.result = .error error →
    error.token ∈ tokens ∨ error.token = last ∨ m.discarding = some error

section

variable {budget : Nat} {m m' : Machine} {before before' tokens : List Token} {token last : Token}
  {pending : List (Derivation (.nonterminal .statement))} {handed : List Event}

theorem statementsOf_flatMap (ds : List (Derivation (.nonterminal .statement))) :
    statementsOf (ds.flatMap Derivation.events) = ds.flatMap Derivation.events := by
  induction ds with
  | nil => rfl
  | cons d ds ih => rw [List.flatMap_cons, statementsOf_append, statementsOf_events, ih]

/-- A run that gives up at once hands over no more than what is awaited. -/
theorem Told.handsOver (pending : List (Derivation (.nonterminal .statement)))
    {error : SyntaxError} (h : Told m token (pending.flatMap Derivation.events) handed (.error error))
    (hfeed : m.feed budget token = (handed, .error error))
    (hpending : (pending.flatMap Derivation.word).Sublist (before ++ token :: tokens)) :
    HandsOver m before (token :: tokens) last (m.run budget last (token :: tokens)) := by
  rw [Machine.run_cons_error hfeed]
  refine ⟨?_, ?_, fun other hother => .inl ?_⟩
  · rcases h.statements with hnone | hawaited
    · exact ⟨[], hnone, List.nil_sublist _⟩
    · exact ⟨pending, hawaited, hpending⟩
  · obtain ⟨errors, hreports, hsub⟩ := h.reports
    exact ⟨errors, hreports, hsub.trans (List.singleton_sublist.2 List.mem_cons_self)⟩
  · obtain rfl := Except.error.inj hother
    exact h.error error rfl ▸ List.mem_cons_self

/-- A run that goes on hands over the awaited statements first. -/
theorem HandsOver.cons (h : HandsOver m' before' tokens last (m'.run budget last tokens))
    (pending : List (Derivation (.nonterminal .statement))) {awaited : List Event}
    (htold : Told m token awaited handed (.ok m'))
    (hfeed : m.feed budget token = (handed, .ok m'))
    (hstatements : statementsOf handed = pending.flatMap Derivation.events)
    (hsub : (pending.flatMap Derivation.word ++ (before' ++ tokens)).Sublist
      (before ++ token :: tokens)) :
    HandsOver m before (token :: tokens) last (m.run budget last (token :: tokens)) := by
  rw [Machine.run_cons_ok hfeed]
  refine ⟨?_, ?_, fun error herror => ?_⟩
  · obtain ⟨ds, hds, hwords⟩ := h.statements
    refine ⟨pending ++ ds, ?_, ?_⟩
    · rw [statementsOf_append, hstatements, hds, List.flatMap_append]
    · rw [List.flatMap_append]
      exact (hwords.append_left _).trans hsub
  · rw [reportsOf_append]
    exact htold.reports.append h.reports
  · rcases h.error error herror with hmem | hlast | hdiscarding
    · exact .inl (List.mem_cons_of_mem _ hmem)
    · exact .inr (.inl hlast)
    · rcases htold.discarding m' error rfl hdiscarding with htoken | hbefore
      · exact .inl (htoken ▸ List.mem_cons_self)
      · exact .inr (.inr hbefore)

/-- The end of the input hands over what is awaited. -/
theorem finish_handsOver (hlast : last.kind = .endOfInput) {begun : List Token}
    (hm : m.discarding = none) (h : Awaits m.stack begun (pending.flatMap Derivation.events))
    (hpending : (pending.flatMap Derivation.word).Sublist before) :
    HandsOver m before [] last (m.run budget last []) := by
  have ht : last.kind.terminal = .ok .endOfInput := by rw [hlast, TokenKind.terminal]
  obtain ⟨base, stack', pieces, verdict, hhalts, hsettle⟩ := h last .endOfInput ht
  rw [Machine.run, Machine.finish_of_settle hm hsettle]
  refine ⟨⟨pending, statementsOf_flatMap pending, ?_⟩, ?_, fun error herror => .inr (.inl ?_)⟩
  · rwa [List.append_nil]
  · show ReportsAt [] (reportsOf (pending.flatMap Derivation.events))
    rw [reportsOf_eq_nil (statementsOf_flatMap pending)]
    exact reportsAt_nil _
  · dsimp only at herror
    split at herror
    · cases herror
    · rw [← Except.error.inj herror]

end

/-- **What a run hands over.**  While a statement is being read its tokens belong to no other; while
tokens are discarded none of them belongs to a statement. -/
theorem run_handsOver {budget : Nat} {last : Token} (hlast : last.kind = .endOfInput)
    {tokens : List Token} (hvisible : Visible tokens) :
    (∀ (m : Machine) (begun : List Token) (pending : List (Derivation (.nonterminal .statement))),
      m.discarding = none → Awaits m.stack begun (pending.flatMap Derivation.events) →
      (∀ other ∈ begun, ∃ u, other.kind.terminal = .ok u) →
      HandsOver m (pending.flatMap Derivation.word ++ begun) tokens last
        (m.run budget last tokens)) ∧
    ∀ m : Machine, m.discarding ≠ none → Foundation .statements m.stack →
      HandsOver m [] tokens last (m.run budget last tokens) := by
  induction tokens with
  | nil =>
    constructor
    · intro m begun pending hm hawaits _
      exact finish_handsOver hlast hm hawaits (List.sublist_append_left _ _)
    · intro m hm _
      obtain ⟨error, hdiscarding⟩ := Option.ne_none_iff_exists'.1 hm
      rw [Machine.run, Machine.finish, hdiscarding]
      refine ⟨⟨[], rfl, List.Sublist.refl _⟩, reportsAt_nil _, fun other hother => .inr (.inr ?_)⟩
      rw [hdiscarding, Except.error.inj hother]
  | cons token tokens ih =>
    have htoken := hvisible token List.mem_cons_self
    obtain ⟨ih, ihDiscarding⟩ := ih fun token h => hvisible token (List.mem_cons_of_mem _ h)
    constructor
    · intro m begun pending hm hawaits hvalid
      have htold := feed_told hm hawaits (statementsOf_flatMap pending) budget token
      rcases hfeed : m.feed budget token with ⟨handed, error | m'⟩
      · rw [hfeed] at htold
        refine htold.handsOver pending hfeed ?_
        rw [List.append_assoc]
        exact List.sublist_append_left _ _
      · rw [hfeed] at htold
        cases ht : token.kind.terminal with
        | error mistake =>
          obtain ⟨rfl, hhanded⟩ := feed_mistake ht hfeed
          refine (ih m' begun pending hm hawaits hvalid).cons [] htold hfeed hhanded ?_
          exact List.Sublist.append_left (List.sublist_cons_self token tokens) _
        | ok t =>
          have hvalid' : ∀ other ∈ begun ++ [token], ∃ u, other.kind.terminal = .ok u :=
            List.forall_mem_append.2 ⟨hvalid, List.forall_mem_singleton.2 ⟨t, ht⟩⟩
          obtain ⟨hhanded, hreaction⟩ :=
            feed_awaits hm hawaits (statementsOf_flatMap pending) hvalid ht htoken hfeed
          cases hreaction with
          | complete d hword hm' hnext =>
            refine (ih m' [] [d] hm' ?_ (List.forall_mem_nil _)).cons pending htold hfeed hhanded ?_
            · rw [List.flatMap_singleton]
              exact hnext
            · rw [List.flatMap_singleton, hword]
              simp
          | goOn hviable hopen hm' hnext =>
            refine (ih m' _ [] hm' hnext hvalid').cons pending htold hfeed hhanded ?_
            simp
          | discard hviable hbase hdiscarding =>
            by_cases hmark : token.IsMark
            · refine (ih m' [] [] (hdiscarding.2 hmark) hbase.awaits
                (List.forall_mem_nil _)).cons pending htold hfeed hhanded ?_
              simp [List.append_assoc]
            · refine (ihDiscarding m' (fun h => hmark (hdiscarding.1 h)) hbase).cons pending htold
                hfeed hhanded ?_
              simp
    · intro m hm hbase
      rcases hfeed : m.feed budget token with ⟨handed, error | m'⟩
      · have htold : Told m token [] handed (.error error) := by
          cases ht : token.kind.terminal with
          | error mistake =>
            have h := feed_told_mistake ht budget m []
            rwa [hfeed] at h
          | ok t =>
            have h := feed_told_discarding hm ht budget []
            rwa [hfeed] at h
        exact Told.handsOver [] htold hfeed (List.nil_sublist _)
      · cases ht : token.kind.terminal with
        | error mistake =>
          have htold := feed_told_mistake ht budget m []
          rw [hfeed] at htold
          obtain ⟨rfl, hhanded⟩ := feed_mistake ht hfeed
          exact (ihDiscarding m' hm hbase).cons [] htold hfeed hhanded
            (List.sublist_cons_self token tokens)
        | ok t =>
          have htold := feed_told_discarding hm ht budget []
          rw [hfeed] at htold
          obtain ⟨rfl, hstack, hdiscarding⟩ := feed_discarding hm ht hfeed
          rw [← hstack] at hbase
          by_cases hmark : token.IsMark
          · exact (ih m' [] [] (hdiscarding.2 hmark) hbase.awaits (List.forall_mem_nil _)).cons []
              htold hfeed rfl (List.sublist_cons_self token tokens)
          · exact (ihDiscarding m' (fun h => hmark (hdiscarding.1 h)) hbase).cons [] htold hfeed rfl
              (List.sublist_cons_self token tokens)

/-- **Every run** over a text hands over statements and reports about its tokens. -/
theorem parse_handsOver (budget : Nat) (origin : Location) (source : String) :
    let scanned := (Scanner.startingAt origin source).tokens
    HandsOver (.initial origin) [] scanned.1 scanned.2
      (parse budget origin source) := by
  have hlast := (Scanner.startingAt origin source).kind_last
  have hvisible := (Scanner.startingAt origin source).visible_tokens
  exact (run_handsOver hlast hvisible).1 _ [] [] rfl (awaits_initial _) (List.forall_mem_nil _)

end CallGraph
