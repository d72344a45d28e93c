import CallGraph.Proofs.Parser.Step
import CallGraph.Proofs.Parser.Strict

/-!
# The budget of a parser

Two parsers with different budgets go side by side.  They do the same until the smaller budget is spent;
then one gives up with an error, and the other one reports it and goes on.

* `Parse.StopsShort` — one run stops with the error that the other one reports next;
* `recover_budget`, `feed_budget` — the step;
* `run_budget` — the run;
* `budget_decides_when` — so the budget only decides when to give up.
-/

namespace CallGraph

/-- The run `narrow` gives up with an error; the run `wide` hands over the same up to there, and then
reports the error. -/
def Parse.StopsShort (narrow wide : Parse) : Prop :=
  ∃ error behind, narrow.result = .error error ∧
    wide.events = narrow.events ++ .report error.toDiagnostic :: behind

/-! ### One token -/

section

variable {k k' : Nat} {m m' : Machine} {token last : Token} {t : Terminal} {events : List Event}

/-- Recovery under two budgets is the same, or only the smaller one is spent. -/
theorem recover_budget (h : k ≤ k') (hquiet : k = 0 → m.quiet = 0) (token : Token) (t : Terminal) :
    m.recover k token t = m.recover k' token t ∨
      m.recover k token t = ([], .error (m.refusal token)) ∧
        ∃ m', m.recover k' token t = ([.report (m.refusal token).toDiagnostic], .ok m') := by
  rcases m.recover_cases k token t with ⟨hk, hspent⟩ | ⟨hk, hpos, hsilent⟩ | ⟨hk, hpos, hzero, hleft⟩
  · -- The smaller budget gives up, and then silence does not save the larger one.
    have hzero : m.quiet = 0 := by
      rcases hspent with hbudget | ⟨hzero, -⟩
      · exact hquiet hbudget
      · exact hzero
    rcases m.recover_cases k' token t with ⟨hk', -⟩ | ⟨-, -, hsilent⟩ | ⟨hk', -⟩
    · exact .inl (hk.trans hk'.symm)
    · omega
    · exact .inr ⟨hk, _, hk'⟩
  · rcases m.recover_cases k' token t with ⟨-, hspent⟩ | ⟨hk', -⟩ | ⟨-, -, hzero, -⟩
    · omega
    · exact .inl (hk.trans hk'.symm)
    · omega
  · rcases m.recover_cases k' token t with ⟨-, hspent⟩ | ⟨-, -, hsilent⟩ | ⟨hk', -⟩
    · omega
    · omega
    · exact .inl (hk.trans hk'.symm)

/-- One token under two budgets. -/
theorem feed_budget (h : k ≤ k') (hquiet : k = 0 → m.quiet = 0) (token : Token) :
    m.feed k token = m.feed k' token ∨
      ∃ events error m', m.feed k token = (events, .error error) ∧
        m.feed k' token = (events ++ [.report error.toDiagnostic], .ok m') := by
  cases ht : token.kind.terminal with
  | error mistake =>
    rw [Machine.feed_of_mistake ht, Machine.feed_of_mistake ht]
    by_cases hk : k = 0
    · by_cases hk' : k' = 0
      · exact .inl (by rw [if_pos hk, if_pos hk'])
      · exact .inr ⟨[], _, m, if_pos hk, if_neg hk'⟩
    · have hk' : k' ≠ 0 := by omega
      exact .inl (by rw [if_neg hk, if_neg hk'])
  | ok t =>
    cases hm : m.discarding with
    | some error =>
      exact .inl (by rw [Machine.feed_of_discarding hm ht, Machine.feed_of_discarding hm ht])
    | none =>
      rcases hs : settle t token.span.location m.stack with ⟨events, what | ⟨stack, verdict⟩⟩
      · left
        rw [Machine.feed_of_inconsistent hm ht hs, Machine.feed_of_inconsistent hm ht hs]
      by_cases hverdict : ∃ next, verdict = .shift next
      · obtain ⟨next, rfl⟩ := hverdict
        exact .inl (by rw [Machine.feed_shift hm ht hs, Machine.feed_shift hm ht hs])
      · rw [Machine.feed_refused hm ht hs (not_exists.1 hverdict),
          Machine.feed_refused hm ht hs (not_exists.1 hverdict)]
        rcases recover_budget (m := { m with stack := stack }) h hquiet token t with
          hsame | ⟨hk, m', hk'⟩
        · exact .inl (by rw [hsame])
        · rw [hk, hk']
          exact .inr ⟨events, _, m', by rw [List.append_nil], rfl⟩

/-- Without a budget the parser is never silent. -/
theorem quiet_feed_zero (hquiet : m.quiet = 0) (hfeed : m.feed 0 token = (events, .ok m')) :
    m'.quiet = 0 := by
  cases ht : token.kind.terminal with
  | error mistake =>
    rw [Machine.feed_of_mistake ht, if_pos rfl] at hfeed
    cases hfeed
  | ok t =>
    cases hm : m.discarding with
    | some error =>
      rw [Machine.feed_of_discarding hm ht] at hfeed
      obtain rfl := Except.ok.inj (Prod.mk.inj hfeed).2
      split <;> exact hquiet
    | none =>
      rcases hs : settle t token.span.location m.stack with ⟨handed, what | ⟨stack, verdict⟩⟩
      · rw [Machine.feed_of_inconsistent hm ht hs] at hfeed
        cases hfeed
      by_cases hverdict : ∃ next, verdict = .shift next
      · obtain ⟨next, rfl⟩ := hverdict
        rw [Machine.feed_shift hm ht hs] at hfeed
        obtain rfl := Except.ok.inj (Prod.mk.inj hfeed).2
        show m.quiet - 1 = 0
        omega
      · rw [Machine.feed_refused hm ht hs (not_exists.1 hverdict), Machine.recover, if_pos rfl] at hfeed
        cases hfeed

end

/-! ### The run -/

/-- **Two runs side by side** are the same, or one of them stops short. -/
theorem run_budget {k k' : Nat} (h : k ≤ k') (last : Token) (m : Machine) (tokens : List Token)
    (hquiet : k = 0 → m.quiet = 0) :
    m.run k' last tokens = m.run k last tokens ∨
      (m.run k last tokens).StopsShort (m.run k' last tokens) := by
  induction tokens generalizing m with
  | nil => exact .inl rfl
  | cons token tokens ih =>
    rcases feed_budget h hquiet token with hsame | ⟨events, error, m', hk, hk'⟩
    · rcases hfeed : m.feed k token with ⟨events, error | m'⟩
      · rw [Machine.run_cons_error hfeed, Machine.run_cons_error (hsame ▸ hfeed)]
        exact .inl rfl
      · rw [Machine.run_cons_ok hfeed, Machine.run_cons_ok (hsame ▸ hfeed)]
        have hquiet' : k = 0 → m'.quiet = 0 := by
          rintro rfl
          exact quiet_feed_zero (hquiet rfl) hfeed
        rcases ih m' hquiet' with hrest | ⟨error, behind, hresult, hevents⟩
        · exact .inl (by rw [hrest])
        · refine .inr ⟨error, behind, hresult, ?_⟩
          simp only [hevents, List.append_assoc]
    · rw [Machine.run_cons_error hk, Machine.run_cons_ok hk']
      exact .inr ⟨error, _, rfl, by simp only [List.append_assoc]; rfl⟩

/-- A strict parser that comes to the end has reported nothing. -/
theorem report_not_mem_of_strict {origin : Location} {source : String}
    (hok : (parse 0 origin source).result = .ok ()) (finding : Diagnostic) :
    Event.report finding ∉ (parse 0 origin source).events := by
  have hvisible := (Scanner.startingAt origin source).visible_tokens
  have hlast := (Scanner.startingAt origin source).kind_last
  set last := (Scanner.startingAt origin source).tokens.2
  have hbase : Foundation .start (emptyStack origin) := .start rfl
  have hreads : Reads (emptyStack origin) [] (Machine.initial origin).stack [] := .base _
  obtain ⟨d, -, hevents⟩ := exists_derivation_of_run hlast hbase hvisible rfl hreads hok
  rw [show (parse 0 origin source).events = d.events from hevents.symm]
  exact d.report_not_mem finding

/-- **The budget only decides when to give up.**  What is handed over under a budget is a beginning of
what is handed over under a larger one.  A run that comes to the end under a budget is the same under
a larger one.  Where two runs differ, the one with the smaller budget gives up with an error, and the
other one reports this error next.  So a strict run comes to the end if and only if a recovering run
does without any report, and then they hand over the same. -/
theorem budget_decides_when {k k' : Nat} (h : k ≤ k') (origin : Location) (source : String) :
    let narrow := parse k origin source
    let wide := parse k' origin source
    narrow.events <+: wide.events ∧
    (narrow.result = .ok () → wide = narrow) ∧
    (wide ≠ narrow → ∃ error behind, narrow.result = .error error ∧
      wide.events = narrow.events ++ .report error.toDiagnostic :: behind) ∧
    ((parse 0 origin source).result = .ok () ↔
      wide.result = .ok () ∧ ∀ finding, .report finding ∉ wide.events) ∧
    ((parse 0 origin source).result = .ok () → wide.events = (parse 0 origin source).events) := by
  intro narrow wide
  have hruns : ∀ {k : Nat}, k ≤ k' →
      wide = parse k origin source ∨ (parse k origin source).StopsShort wide :=
    fun h => run_budget h _ _ _ fun _ => rfl
  have hsame : ∀ {k : Nat}, k ≤ k' → (parse k origin source).result = .ok () →
      wide = parse k origin source := by
    intro k h hok
    rcases hruns h with hsame | ⟨error, behind, herror, -⟩
    · exact hsame
    · rw [hok] at herror
      cases herror
  refine ⟨?_, hsame h, fun hdiffer => ?_, ⟨fun hok => ?_, ?_⟩, fun hok => ?_⟩
  · rcases hruns h with hsame | ⟨error, behind, -, hevents⟩
    · rw [hsame]
    · exact ⟨_, hevents.symm⟩
  · exact (hruns h).resolve_left hdiffer
  · rw [hsame (Nat.zero_le k') hok]
    exact ⟨hok, report_not_mem_of_strict hok⟩
  · rintro ⟨hok, hreports⟩
    rcases hruns (Nat.zero_le k') with hsame | ⟨error, behind, -, hevents⟩
    · rw [← hsame]
      exact hok
    · refine absurd ?_ (hreports error.toDiagnostic)
      rw [hevents]
      exact List.mem_append_right _ List.mem_cons_self
  · rw [hsame (Nat.zero_le k') hok]

/-- A text with two mistakes, of which a budget of one lets only the first one pass. -/
theorem budget_decides_when_spent :
    let source := ". ; .a [] . ;"
    1 ≤ 2 ∧ (parse 2 .start source).result = .ok () ∧
      ∃ error behind, (parse 1 .start source).result = .error error ∧
        (parse 2 .start source).events =
          (parse 1 .start source).events ++ .report error.toDiagnostic :: behind := by
  intro source
  have hresults : (parse 2 .start source).result = .ok () ∧
      (parse 1 .start source).result ≠ .ok () := by decide +kernel
  obtain ⟨-, -, hdiffer, -⟩ := budget_decides_when (by decide : 1 ≤ 2) .start source
  exact ⟨by decide, hresults.1, hdiffer fun h => hresults.2 (h ▸ hresults.1)⟩

end CallGraph
