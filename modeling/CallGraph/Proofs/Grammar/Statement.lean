import CallGraph.Proofs.Grammar.Anchor
import CallGraph.Proofs.Parser.Frame
import CallGraph.Proofs.Token.Scan

/-!
# Where a statement starts and stops

A statement says where it is: its span starts with the first of its tokens and stops with the last one,
the semicolon behind it left out.

* `Derivation.exists_statement` — whatever a derivation hands over is a statement derived within it;
* `Event.span?`, `Event.closing` — the span of a statement, and what completes it behind its span;
* `spanOf_delimits` — what a word in order covers;
* `Derivation.delimited` — **the span of a statement** delimits its tokens, and they make up the same
  statement with any semicolon behind them.
-/

namespace CallGraph

/-! ### Statements within a derivation -/

/-- A rule that completes a statement derives it. -/
theorem Derivation.statement_of_completes (rule : Rule) (children : Forest rule.rhs) {event : Event}
    (h : event ∈ rule.completes children.contents) :
    ∃ said : Derivation (.nonterminal .statement), said.events = [event] ∧
      said.word = children.word := by
  cases rule with
  | nodeStatement =>
    cases children with
    | cons declared rest =>
      cases rest
      exact ⟨.branch .nodeStatement (.cons declared .nil), by rw [List.mem_singleton.1 h]; rfl, rfl⟩
  | edgeStatement =>
    cases children with
    | cons declared rest =>
      cases rest with
      | cons semicolon rest =>
        cases rest
        exact ⟨.branch .edgeStatement (.cons declared (.cons semicolon .nil)),
          by rw [List.mem_singleton.1 h]; rfl, rfl⟩
  | settingStatement =>
    cases children with
    | cons assigned rest =>
      cases rest with
      | cons semicolon rest =>
        cases rest
        exact ⟨.branch .settingStatement (.cons assigned (.cons semicolon .nil)),
          by rw [List.mem_singleton.1 h]; rfl, rfl⟩
  | _ => exact absurd h List.not_mem_nil

mutual

/-- **What a derivation hands over** are statements that are derived within it. -/
theorem Derivation.exists_statement {event : Event} : {x : Symbol} → (d : Derivation x) →
    event ∈ d.events → ∃ said : Derivation (.nonterminal .statement), said.events = [event] ∧
      said.word <:+: d.word
  | _, .leaf _ _, h => absurd h List.not_mem_nil
  | _, .branch rule children, h => by
    rw [Derivation.events_branch, List.mem_append] at h
    rcases h with hpart | hcompletes
    · exact children.exists_statement hpart
    · obtain ⟨said, hsaid, hword⟩ := Derivation.statement_of_completes rule children hcompletes
      exact ⟨said, hsaid, [], [], by rw [List.nil_append, List.append_nil, hword]; rfl⟩

/-- What derivations in a row hand over are statements that are derived within them. -/
theorem Forest.exists_statement {event : Event} : {xs : List Symbol} → (f : Forest xs) →
    event ∈ f.events → ∃ said : Derivation (.nonterminal .statement), said.events = [event] ∧
      said.word <:+: f.word
  | _, .nil, h => absurd h List.not_mem_nil
  | _, .cons first rest, h => by
    rcases List.mem_append.1 h with hfirst | hrest
    · obtain ⟨said, hsaid, hword⟩ := first.exists_statement hfirst
      exact ⟨said, hsaid, hword.trans (List.prefix_append _ _).isInfix⟩
    · obtain ⟨said, hsaid, hword⟩ := rest.exists_statement hrest
      exact ⟨said, hsaid, hword.trans (List.suffix_append _ _).isInfix⟩

end

/-! ### Spans -/

/-- The span of a statement. -/
def Event.span? : Event → Option Span
  | .node s => some s.span
  | .edge s => some s.span
  | .setting a => some a.span
  | .report _ => none

/-- The semicolon that stands at a location. -/
def Token.semicolonAt (here : Location) : Token := ⟨.semicolon, ";", .ofText here [';']⟩

/-- The text that completes a statement behind its span. -/
def Event.ending : Event → String
  | .edge _ | .setting _ => ";"
  | .node _ | .report _ => ""

/-- The tokens that complete a statement whose span stops at a location. -/
def Event.closing (here : Location) : Event → List Token
  | .edge _ | .setting _ => [.semicolonAt here]
  | .node _ | .report _ => []

/-- What completes a statement is nothing or a semicolon. -/
theorem Event.closing_cases (event : Event) :
    (event.ending.toList = [] ∧ ∀ here, event.closing here = []) ∨
      (event.ending.toList = [';'] ∧ ∀ here, event.closing here = [.semicolonAt here]) := by
  have hsemicolon : ";".toList = [';'] := by decide
  cases event with
  | node s => exact .inl ⟨rfl, fun _ => rfl⟩
  | edge s => exact .inr ⟨hsemicolon, fun _ => rfl⟩
  | setting a => exact .inr ⟨hsemicolon, fun _ => rfl⟩
  | report finding => exact .inl ⟨rfl, fun _ => rfl⟩

/-- What completes a statement is cut into tokens. -/
theorem Event.scans_ending (event : Event) (here : Location) :
    Scans here event.ending.toList (event.closing here) := by
  have hnothing : Scans here [] [] := .nil (.inl .nil)
  rcases event.closing_cases with ⟨hending, hclosing⟩ | ⟨hending, hclosing⟩ <;>
    rw [hending, hclosing]
  · exact hnothing
  · have hcuts : Cuts .semicolon [';'] [] := ⟨by simp [StartsGap], ';', [], rfl, rfl⟩
    exact .cut hcuts (.nil (.inl .nil))

/-- What completes a statement goes on with no name. -/
theorem Event.stops_ending (event : Event) : Stops isNamePart event.ending.toList := by
  rcases event.closing_cases with ⟨hending, -⟩ | ⟨hending, -⟩ <;> rw [hending]
  · exact stops_nil _
  · intro x hx
    obtain rfl := Option.some.inj hx
    decide

namespace Span

variable {word : List Token} {token : Token} {s : Span}

theorem delimits_token (token : Token) : token.span.Delimits [token] :=
  ⟨token, token, rfl, rfl, rfl, rfl⟩

theorem Delimits.ne_nil (h : s.Delimits word) : word ≠ [] := by
  rintro rfl
  obtain ⟨first, last, hfirst, -⟩ := h
  cases hfirst

/-- A span that a token stands before is extended to start with that token. -/
theorem Delimits.cons (h : s.Delimits word) (horder : InOrder (token :: word)) :
    (token.span.union s).Delimits (token :: word) := by
  obtain ⟨first, last, hfirst, hlast, hlocation, hstop⟩ := h
  have hbehind := (List.pairwise_cons.1 horder).1
  have hstart := hbehind first (List.mem_of_mem_head? hfirst)
  have hend := hbehind last (List.mem_of_mem_getLast? hlast)
  have hle := token.span.start_le_stop
  have hle' := last.span.start_le_stop
  have hstarts : s.start = first.span.start := congrArg Location.offset hlocation
  refine ⟨token, last, rfl, ?_, ?_, ?_⟩
  · obtain ⟨other, word, rfl⟩ := List.exists_cons_of_ne_nil (List.ne_nil_of_mem
      (List.mem_of_mem_head? hfirst))
    rwa [List.getLast?_cons_cons]
  · rw [location_union, if_neg (by omega)]
  · rw [stop_union]
    omega

end Span

/-- **A word in order** covers what lies between its first and its last token. -/
theorem spanOf_delimits {word : List Token} (hvisible : Visible word) (horder : InOrder word)
    (hword : word ≠ []) : (spanOf word).Delimits word := by
  induction word with
  | nil => exact absurd rfl hword
  | cons token word ih =>
    have hrest : Visible word := fun other hother => hvisible other (List.mem_cons_of_mem _ hother)
    by_cases hnil : word = []
    · subst hnil
      rw [spanOf_singleton (hvisible token List.mem_cons_self)]
      exact Span.delimits_token token
    · rw [spanOf_cons hvisible hnil]
      exact (ih hrest (List.pairwise_cons.1 horder).2 hnil).cons horder

/-! ### Statements and their spans -/

/-- A nonterminal is derived by one of its rules. -/
theorem Derivation.exists_branch {n : Nonterminal} (d : Derivation (.nonterminal n)) :
    ∃ rule, rule.lhs = n ∧ ∃ children : Forest rule.rhs, HEq d (Derivation.branch rule children) := by
  cases d with
  | branch rule children => exact ⟨rule, rfl, children, HEq.rfl⟩

/-- The span of a declared node is what its word covers. -/
theorem Derivation.span_node (d : Derivation (.nonterminal .node)) :
    d.word ≠ [] ∧ NodeStatement.span d.content = spanOf d.word := by
  obtain ⟨rule, hrule, children, hd⟩ := d.exists_branch
  cases rule <;> cases hrule
  obtain rfl := eq_of_heq hd
  cases children with
  | cons dot rest =>
    cases dot
    exact ⟨List.cons_ne_nil _ _, rfl⟩

/-- So is the span of a declared edge. -/
theorem Derivation.span_edge (d : Derivation (.nonterminal .edge)) :
    d.word ≠ [] ∧ EdgeStatement.span d.content = spanOf d.word := by
  obtain ⟨rule, hrule, children, hd⟩ := d.exists_branch
  cases rule <;> cases hrule
  obtain rfl := eq_of_heq hd
  cases children with
  | cons ends rest => exact ⟨List.append_ne_nil_of_left_ne_nil (ends.head_word_ne_nil rfl) _, rfl⟩

theorem Token.span_identifier (token : Token) (stands : token.kind.terminal = .ok .identifier) :
    Located.span (token.data stands) = token.span := by
  obtain ⟨kind, text, span⟩ := token
  cases kind <;> cases stands
  rfl

/-- A value is a token, and its span is that of the token. -/
theorem Derivation.span_value (d : Derivation (.nonterminal .value)) :
    ∃ token, d.word = [token] ∧ Located.span d.content = token.span := by
  obtain ⟨rule, hrule, children, hd⟩ := d.exists_branch
  cases rule <;> cases hrule <;> obtain rfl := eq_of_heq hd
  all_goals
    cases children with
    | cons said rest =>
      cases rest
      cases said with
      | leaf token stands =>
        refine ⟨token, rfl, ?_⟩
        obtain ⟨kind, text, span⟩ := token
        cases kind <;> cases stands
        rfl

/-- An assigned setting is three tokens, and its span is from the first to the last of them. -/
theorem Derivation.span_setting (d : Derivation (.nonterminal .setting)) :
    ∃ key equals token, d.word = [key, equals, token] ∧
      Assignment.span d.content = key.span.union token.span := by
  obtain ⟨rule, hrule, children, hd⟩ := d.exists_branch
  cases rule <;> cases hrule
  obtain rfl := eq_of_heq hd
  cases children with
  | cons key rest =>
  cases rest with
  | cons equals rest =>
  cases rest with
  | cons assigned rest =>
  cases rest
  cases key with
  | leaf key hkey =>
  cases equals with
  | leaf equals hequals =>
  obtain ⟨token, hword, hspan⟩ := assigned.span_value
  refine ⟨key, equals, token, ?_, ?_⟩
  · show [key] ++ ([equals] ++ (assigned.word ++ [])) = _
    rw [hword]
    rfl
  · show (Located.span (key.data hkey)).union (Located.span assigned.content) = _
    rw [key.span_identifier, hspan]

/-- So its span delimits its word. -/
theorem Derivation.delimits_setting (d : Derivation (.nonterminal .setting))
    (horder : InOrder d.word) : (Assignment.span d.content).Delimits d.word := by
  obtain ⟨key, equals, token, hword, hspan⟩ := d.span_setting
  rw [hword] at horder ⊢
  rw [hspan]
  have hbehind := (List.pairwise_cons.1 horder).1
  have hafter := hbehind token (List.mem_cons_of_mem _ List.mem_cons_self)
  have hle := key.span.start_le_stop
  have hle' := token.span.start_le_stop
  refine ⟨key, token, rfl, rfl, ?_, ?_⟩
  · rw [Span.location_union, if_neg (by omega)]
  · rw [Span.stop_union]
    omega

/-- **The span of a statement** delimits its tokens.  With any semicolon behind them, if it takes one,
they make up the same statement. -/
theorem Derivation.delimited (said : Derivation (.nonterminal .statement)) {event : Event}
    (hsaid : said.events = [event]) (hvisible : Visible said.word) (horder : InOrder said.word) :
    ∃ body rest span, said.word = body ++ rest ∧ event.span? = some span ∧ span.Delimits body ∧
      ∀ here, ∃ again : Derivation (.nonterminal .statement),
        again.word = body ++ event.closing here ∧ again.events = [event] := by
  obtain ⟨rule, hrule, children, hd⟩ := said.exists_branch
  cases rule <;> cases hrule <;> obtain rfl := eq_of_heq hd
  case nodeStatement =>
    cases children with
    | cons declared rest =>
      cases rest
      obtain rfl : Event.node declared.content = event := (List.cons.inj hsaid).1
      obtain ⟨hword, hspan⟩ := declared.span_node
      have hdelimits := spanOf_delimits (fun token h => hvisible token (List.mem_append_left _ h))
        (List.pairwise_append.1 horder).1 hword
      exact ⟨declared.word, [], _, rfl, congrArg some hspan, hdelimits,
        fun here => ⟨.branch .nodeStatement (.cons declared .nil), rfl, rfl⟩⟩
  case edgeStatement =>
    cases children with
    | cons declared rest =>
      obtain rfl : Event.edge declared.content = event := (List.cons.inj hsaid).1
      obtain ⟨hword, hspan⟩ := declared.span_edge
      have hdelimits := spanOf_delimits (fun token h => hvisible token (List.mem_append_left _ h))
        (List.pairwise_append.1 horder).1 hword
      exact ⟨declared.word, rest.word, _, rfl, congrArg some hspan, hdelimits, fun here =>
        ⟨.branch .edgeStatement (.cons declared (.cons (.leaf (.semicolonAt here) rfl) .nil)), rfl,
          rfl⟩⟩
  case settingStatement =>
    cases children with
    | cons assigned rest =>
      obtain rfl : Event.setting assigned.content = event := (List.cons.inj hsaid).1
      have hdelimits := assigned.delimits_setting (List.pairwise_append.1 horder).1
      exact ⟨assigned.word, rest.word, _, rfl, rfl, hdelimits, fun here =>
        ⟨.branch .settingStatement (.cons assigned (.cons (.leaf (.semicolonAt here) rfl) .nil)), rfl,
          rfl⟩⟩
  case emptyStatement =>
    cases children with
    | cons semicolon rest =>
      cases rest
      cases hsaid

end CallGraph
