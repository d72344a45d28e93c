import CallGraph.Proofs.Parser.Consistency
import CallGraph.Proofs.Parser.Handover
import CallGraph.Proofs.Token.Layout

/-!
# Mistakes within tokens

A token that is a mistake is passed over with a report, or the parser fails with it.  It is never refused,
so nothing else is said about it.

* `Parse.complaints` — all that a parse has to say: its reports, and the error that it fails with;
* `Diagnostic.startsWithin` — whether a finding is placed within a span;
* `Parse.SaysOnce` — what becomes of a mistake;
* `Machine.complaints_run`, `Machine.saysOnce_run` — **the run**: nothing is said about what is not among the
  tokens, and a mistake is said once;
* `saysOnce_parse` — so it is in the parse of every text.
-/

namespace CallGraph

/-- The reports of a parse, and the error that it fails with. -/
def Parse.complaints : Parse → List Diagnostic
  | ⟨events, .ok _, _, _⟩ => reportsOf events
  | ⟨events, .error error, _, _⟩ => reportsOf events ++ [error.toDiagnostic]

/-- Whether the span starts within the other one. -/
def Span.startsWithin (s other : Span) : Bool := other.start ≤ s.start && s.start < other.stop

/-- Whether the finding is placed within the span. -/
def Diagnostic.startsWithin (d : Diagnostic) (s : Span) : Bool := d.span?.any fun here => here.startsWithin s

/-- A mistake within a token behind the tokens `before` is said once, and nothing else is said about the piece
of the text that this token covers. -/
inductive Parse.SaysOnce (before : List Token) (mistake : SyntaxError) (p : Parse) : Prop where
  /-- The parse has failed at an earlier token, and has nothing to say about this one. -/
  | unread {error : SyntaxError} : p.result = .error error → error.token ∈ before →
    mistake.token ∈ p.rest → p.complaints.filter (·.startsWithin mistake.token.span) = [] →
    Parse.SaysOnce before mistake p
  /-- The mistake is reported, or the parse fails with it. -/
  | said : mistake.token ∉ p.rest →
    p.complaints.filter (·.startsWithin mistake.token.span) = [mistake.toDiagnostic] →
    Parse.SaysOnce before mistake p

section

variable {s other : Span}

theorem Span.startsWithin_self (h : s.isEmpty = false) : s.startsWithin s = true := by
  have hstop := start_lt_stop h
  simp [startsWithin, hstop]

theorem Span.startsWithin_of_stop_le (h : other.stop ≤ s.start) : s.startsWithin other = false := by
  simp [startsWithin, h]

/-- A span that covers something stands before what starts behind it. -/
theorem Span.startsWithin_of_le_start (hs : s.isEmpty = false) (h : s.stop ≤ other.start) :
    s.startsWithin other = false := by
  have hnot : ¬other.start ≤ s.start := Nat.not_le_of_lt (Nat.lt_of_lt_of_le (start_lt_stop hs) h)
  simp [startsWithin, hnot]

theorem SyntaxError.startsWithin_toDiagnostic (error : SyntaxError) (s : Span) :
    error.toDiagnostic.startsWithin s = error.token.span.startsWithin s := rfl

/-- Reports about tokens elsewhere are elsewhere. -/
theorem ReportsAt.filter_startsWithin {tokens : List Token} {findings : List Diagnostic}
    (h : ReportsAt tokens findings) (hapart : ∀ token ∈ tokens, token.span.startsWithin s = false) :
    findings.filter (·.startsWithin s) = [] := by
  obtain ⟨errors, rfl, hsub⟩ := h
  refine List.filter_eq_nil_iff.2 fun d hd => ?_
  obtain ⟨error, herror, rfl⟩ := List.mem_map.1 hd
  rw [error.startsWithin_toDiagnostic, hapart _ (hsub.subset (List.mem_map_of_mem herror))]
  exact Bool.false_ne_true

end

theorem Parse.complaints_after (events : List Event) (p : Parse) :
    (p.after events).complaints = reportsOf events ++ p.complaints := by
  obtain ⟨more, error | ok, recoveries, rest⟩ := p
  · simp only [after, complaints, reportsOf_append, List.append_assoc]
  · exact reportsOf_append events more

/-! ### A run -/

namespace Machine

variable {budget : Nat} {m m' : Machine} {token last : Token} {tokens before behind : List Token}
  {events : List Event} {error : SyntaxError} {what : LexicalError} {s : Span}

/-- What is being recovered from is none of what starts within the span. -/
def RecoversElsewhere (s : Span) (m : Machine) : Prop :=
  ∀ error, m.discarding = some error → error.token.span.startsWithin s = false

/-- A token elsewhere leaves the parser elsewhere, and nothing is said about the span. -/
theorem feed_elsewhere (hfeed : m.feed budget token = (events, .ok m')) (hm : m.RecoversElsewhere s)
    (htoken : token.span.startsWithin s = false) :
    m'.RecoversElsewhere s ∧ (reportsOf events).filter (·.startsWithin s) = [] := by
  obtain ⟨awaited, htold⟩ := m.exists_told budget token
  rw [hfeed] at htold
  refine ⟨fun error herror => ?_, htold.reports.filter_startsWithin (List.forall_mem_singleton.2 htoken)⟩
  rcases htold.discarding m' error rfl herror with hsame | hbefore
  · rw [hsame]
    exact htoken
  · exact hm error hbefore

/-- Where a parser fails at a token elsewhere, nothing is said about the span either. -/
theorem complaints_run_of_error (last : Token) (hfeed : m.feed budget token = (events, .error error))
    (htoken : token.span.startsWithin s = false) (tokens : List Token) :
    error.token = token ∧
      (m.run budget last (token :: tokens)).complaints.filter (·.startsWithin s) = [] := by
  obtain ⟨awaited, htold⟩ := m.exists_told budget token
  rw [hfeed] at htold
  have hsame := htold.error error rfl
  refine ⟨hsame, ?_⟩
  rw [run_cons_error hfeed, Parse.complaints, List.filter_append,
    htold.reports.filter_startsWithin (List.forall_mem_singleton.2 htoken), List.nil_append,
    List.filter_singleton, error.startsWithin_toDiagnostic, hsame, htoken]
  rfl

theorem complaints_run_of_ok (hfeed : m.feed budget token = (events, .ok m')) (tokens : List Token) :
    (m.run budget last (token :: tokens)).complaints =
      reportsOf events ++ (m'.run budget last tokens).complaints := by
  rw [← Parse.complaints_after, run_cons_ok hfeed]
  rfl

/-- At the end of the input the parser has to say something about the end, or about what it has been
recovering from. -/
theorem complaints_finish (hm : m.RecoversElsewhere s) (hlast : last.span.startsWithin s = false) :
    (m.run budget last []).complaints.filter (·.startsWithin s) = [] := by
  have hfails : ∀ (events : List Event) (error : SyntaxError), reportsOf events = [] →
      error.token.span.startsWithin s = false →
      (Parse.complaints ⟨events, .error error, m.recoveries, []⟩).filter (·.startsWithin s) = [] := by
    intro events error hevents herror
    rw [Parse.complaints, hevents, List.nil_append, List.filter_singleton,
      error.startsWithin_toDiagnostic, herror]
    rfl
  rw [run, finish]
  cases hdiscarding : m.discarding with
  | some error => exact hfails [] error rfl (hm error hdiscarding)
  | none =>
    have hreports := reportsOf_settle .endOfInput last.span.location m.stack
    rcases hsettle : settle .endOfInput last.span.location m.stack with
      ⟨events, what | ⟨stack', verdict⟩⟩ <;> rw [hsettle] at hreports
    · exact hfails events _ hreports hlast
    · cases verdict with
      | accept => exact (congrArg (List.filter _) hreports).trans rfl
      | shift next => exact hfails events _ hreports hlast
      | refuse => exact hfails events _ hreports hlast

/-- **Nothing is said** about what is not among the tokens. -/
theorem complaints_run (hm : m.RecoversElsewhere s) (hlast : last.span.startsWithin s = false)
    (htokens : ∀ token ∈ tokens, token.span.startsWithin s = false) :
    (m.run budget last tokens).complaints.filter (·.startsWithin s) = [] := by
  induction tokens generalizing m with
  | nil => exact complaints_finish hm hlast
  | cons token tokens ih =>
    obtain ⟨htoken, htokens⟩ := List.forall_mem_cons.1 htokens
    rcases hfeed : m.feed budget token with ⟨events, error | m'⟩
    · exact (complaints_run_of_error last hfeed htoken tokens).2
    · obtain ⟨hm', hreports⟩ := feed_elsewhere hfeed hm htoken
      rw [complaints_run_of_ok hfeed, List.filter_append, hreports, ih hm' htokens, List.nil_append]

/-- A mistake at the front is said at once. -/
theorem saysOnce_run_cons (hwhat : token.kind.terminal = .error what) (hm : m.RecoversElsewhere token.span)
    (hself : token.span.startsWithin token.span = true)
    (hlast : last.span.startsWithin token.span = false)
    (hbehind : ∀ t ∈ behind, t.span.startsWithin token.span = false) (before : List Token) :
    (m.run budget last (token :: behind)).SaysOnce before ⟨token, .lexical what⟩ := by
  have hmem : token ∉ behind := fun hmem => by
    rw [hbehind token hmem] at hself
    cases hself
  have hfound : [SyntaxError.toDiagnostic ⟨token, .lexical what⟩].filter (·.startsWithin token.span) =
      [SyntaxError.toDiagnostic ⟨token, .lexical what⟩] := by
    rw [List.filter_singleton, SyntaxError.startsWithin_toDiagnostic, hself]
    rfl
  by_cases hbudget : budget = 0
  · have hfeed : m.feed budget token = ([], .error ⟨token, .lexical what⟩) := by
      rw [feed_of_mistake hwhat, if_pos hbudget]
    rw [run_cons_error hfeed]
    exact .said hmem hfound
  · have hfeed : m.feed budget token =
        ([.report (SyntaxError.toDiagnostic ⟨token, .lexical what⟩)], .ok m) := by
      rw [feed_of_mistake hwhat, if_neg hbudget]
    refine .said (fun hrest => hmem ?_) ?_
    · rw [run_cons_ok hfeed] at hrest
      exact (rest_suffix budget last m behind).subset hrest
    · rw [complaints_run_of_ok hfeed, List.filter_append, complaints_run hm hlast hbehind, List.append_nil]
      exact hfound

/-- **A mistake is said once**, unless the parser has failed before.  The induction is on the tokens before
the mistake. -/
theorem saysOnce_run (hwhat : token.kind.terminal = .error what) (hm : m.RecoversElsewhere token.span)
    (hself : token.span.startsWithin token.span = true)
    (hlast : last.span.startsWithin token.span = false)
    (hbefore : ∀ t ∈ before, t.span.startsWithin token.span = false)
    (hbehind : ∀ t ∈ behind, t.span.startsWithin token.span = false) :
    (m.run budget last (before ++ token :: behind)).SaysOnce before ⟨token, .lexical what⟩ := by
  induction before generalizing m with
  | nil => exact saysOnce_run_cons hwhat hm hself hlast hbehind []
  | cons first before ih =>
    obtain ⟨hfirst, hbefore⟩ := List.forall_mem_cons.1 hbefore
    rw [List.cons_append]
    rcases hfeed : m.feed budget first with ⟨events, error | m'⟩
    · obtain ⟨hsame, hnone⟩ := complaints_run_of_error last hfeed hfirst (before ++ token :: behind)
      rw [run_cons_error hfeed] at hnone ⊢
      exact .unread rfl (hsame ▸ List.mem_cons_self) (List.mem_append_right _ List.mem_cons_self) hnone
    · obtain ⟨hm', hreports⟩ := feed_elsewhere hfeed hm hfirst
      have hcomplaints : ((m.run budget last (first :: (before ++ token :: behind))).complaints).filter
          (·.startsWithin token.span) =
            ((m'.run budget last (before ++ token :: behind)).complaints).filter
              (·.startsWithin token.span) := by
        rw [complaints_run_of_ok hfeed, List.filter_append, hreports, List.nil_append]
      have hrun : m.run budget last (first :: (before ++ token :: behind)) =
          (m'.run budget last (before ++ token :: behind)).after events := run_cons_ok hfeed _
      cases ih hm' hbefore with
      | unread hresult herror hrest hnone =>
        refine .unread ?_ (List.mem_cons_of_mem _ herror) ?_ (hcomplaints.trans hnone)
        · rw [hrun]
          exact hresult
        · rw [hrun]
          exact hrest
      | said hrest hsaid =>
        refine .said ?_ (hcomplaints.trans hsaid)
        rw [hrun]
        exact hrest

end Machine

/-- **A mistake within a token is said once** in the parse of every text. -/
theorem saysOnce_parse (budget : Nat) {origin : Location} {source : String} {token : Token}
    {before behind : List Token} {what : LexicalError}
    (htokens : (Scanner.startingAt origin source).tokens.1 = before ++ token :: behind)
    (hwhat : token.kind = .invalid what) :
    (parse budget origin source).SaysOnce before ⟨token, .lexical what⟩ := by
  have hlayout := (Scanner.startingAt origin source).layout
  have hwithin := hlayout.within
  have hvisible := hlayout.visible
  have hordered := hlayout.ordered
  rw [htokens] at hwithin hvisible hordered
  obtain ⟨-, hbehind, hbefore⟩ := List.pairwise_append.1 hordered
  have htoken : token ∈ before ++ token :: behind := List.mem_append_right _ List.mem_cons_self
  have hparse : parse budget origin source = (Machine.initial origin).run budget
      (Scanner.startingAt origin source).tokens.2 (before ++ token :: behind) := by
    rw [← htokens]
    rfl
  rw [hparse]
  refine Machine.saysOnce_run ?_ ?_ (Span.startsWithin_self (hvisible token htoken)) ?_
    (fun t ht => ?_) (fun t ht => ?_)
  · rw [hwhat, TokenKind.terminal]
  · intro error herror
    cases herror
  · refine Span.startsWithin_of_stop_le ?_
    have hstop := (hwithin token htoken).bounds.2
    rw [← Location.offset_advance] at hstop
    rw [hlayout.last_eq]
    exact hstop
  · exact Span.startsWithin_of_le_start (hvisible t (List.mem_append_left _ ht))
      (hbefore t ht token List.mem_cons_self)
  · exact Span.startsWithin_of_stop_le ((List.pairwise_cons.1 hbehind).1 t ht)

end CallGraph
