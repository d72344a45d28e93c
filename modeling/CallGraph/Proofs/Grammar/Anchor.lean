import CallGraph.Parser.Reduction
import CallGraph.Proofs.Grammar.Derivation
import CallGraph.Proofs.Source.Cover
import CallGraph.Proofs.Token.Visible

/-!
# Where statements lie

The spans in a statement start and stop where tokens of its word do.

* `Span.Anchored` — a span that starts with some token of a word and stops with some;
* `spanOf_anchored` — the span that a word covers;
* `Event.Anchored` — the spans of a statement, its options in order, and its payload in its token;
* `Rule.anchors` — what one rule keeps, and `Derivation.anchors` — so every derivation does.
-/

namespace CallGraph

/-- The span starts with some token of the word and stops with some, and it is not empty. -/
def Span.Anchored (word : List Token) (s : Span) : Prop :=
  s.isEmpty = false ∧ ∃ a ∈ word, ∃ b ∈ word, s.location = a.span.location ∧ s.stop = b.span.stop

/-- Each token of the word stops before the next one starts. -/
def InOrder (word : List Token) : Prop := word.Pairwise fun a b => a.span.stop ≤ b.span.start

namespace Span

variable {word others : List Token} {s t : Span} {token : Token}

theorem Anchored.mono (h : s.Anchored word) (hsub : word ⊆ others) : s.Anchored others := by
  obtain ⟨hvisible, a, ha, b, hb, hlocation, hstop⟩ := h
  exact ⟨hvisible, a, hsub ha, b, hsub hb, hlocation, hstop⟩

theorem Anchored.start_lt_stop (h : s.Anchored word) : s.start < s.stop := by
  have hvisible := h.1
  unfold isEmpty at hvisible
  unfold stop
  simp only [beq_eq_false_iff_ne] at hvisible
  omega

theorem anchored_token (hmem : token ∈ word) (hvisible : token.span.isEmpty = false) :
    token.span.Anchored word :=
  ⟨hvisible, token, hmem, token, hmem, rfl, rfl⟩

theorem Anchored.union (hs : s.Anchored word) (ht : t.Anchored word) :
    (s.union t).Anchored word := by
  obtain ⟨hvisible, a, ha, b, hb, hlocation, hstop⟩ := hs
  obtain ⟨-, a', ha', b', hb', hlocation', hstop'⟩ := ht
  refine ⟨isEmpty_union hvisible, ?_⟩
  obtain ⟨first, hfirst, hstarts⟩ : ∃ first ∈ word, (s.union t).location = first.span.location := by
    rw [location_union]
    split
    · exact ⟨a', ha', hlocation'⟩
    · exact ⟨a, ha, hlocation⟩
  rcases Nat.le_total s.stop t.stop with hle | hle
  · exact ⟨first, hfirst, b', hb', hstarts, by rw [stop_union, Nat.max_eq_right hle, hstop']⟩
  · exact ⟨first, hfirst, b, hb, hstarts, by rw [stop_union, Nat.max_eq_left hle, hstop]⟩

/-- What is anchored in a word stops before what is anchored in the tokens behind it starts. -/
theorem Anchored.stop_le_start (hs : s.Anchored word) (ht : t.Anchored others)
    (hbehind : ∀ a ∈ word, ∀ b ∈ others, a.span.stop ≤ b.span.start) : s.stop ≤ t.start := by
  obtain ⟨-, -, -, b, hb, -, hstop⟩ := hs
  obtain ⟨-, a, ha, -, -, hlocation, -⟩ := ht
  rw [hstop, start, hlocation]
  exact hbehind b hb a ha

end Span

/-! ### What a word covers -/

theorem spanOf_cons {token : Token} {word : List Token} (hvisible : Visible (token :: word))
    (hword : word ≠ []) : spanOf (token :: word) = token.span.union (spanOf word) := by
  obtain ⟨first, rest, rfl⟩ := List.exists_cons_of_ne_nil hword
  have hfirst := hvisible first (List.mem_cons_of_mem _ List.mem_cons_self)
  have hmem : first.span ∈ (first :: rest).map Token.span :=
    List.mem_map_of_mem List.mem_cons_self
  obtain ⟨s, hs⟩ := Span.exists_cover? hmem hfirst
  unfold spanOf
  rw [List.map_cons, Span.cover?_cons, Span.cover?_singleton (hvisible token List.mem_cons_self), hs]
  rfl

/-- **The span that a word covers** is anchored in the word, and covers all tokens of it. -/
theorem spanOf_anchored {word : List Token} (hvisible : Visible word) (hword : word ≠ []) :
    (spanOf word).Anchored word ∧ ∀ token ∈ word,
      (spanOf word).start ≤ token.span.start ∧ token.span.stop ≤ (spanOf word).stop := by
  induction word with
  | nil => exact absurd rfl hword
  | cons token word ih =>
    have htoken := hvisible token List.mem_cons_self
    have hanchored : token.span.Anchored (token :: word) :=
      Span.anchored_token List.mem_cons_self htoken
    by_cases hrest : word = []
    · subst hrest
      have hspan : spanOf [token] = token.span := by
        unfold spanOf
        rw [List.map_singleton, Span.cover?_singleton htoken]
        rfl
      rw [hspan]
      refine ⟨hanchored, fun other hother => ?_⟩
      rw [List.mem_singleton.1 hother]
      exact ⟨Nat.le_refl _, Nat.le_refl _⟩
    · obtain ⟨hcover, hall⟩ := ih (fun other h => hvisible other (List.mem_cons_of_mem _ h)) hrest
      rw [spanOf_cons hvisible hrest]
      refine ⟨hanchored.union (hcover.mono (List.subset_cons_self _ _)), fun other hother => ?_⟩
      rw [Span.start_union, Span.stop_union]
      rcases List.mem_cons.1 hother with rfl | hother
      · omega
      · have hbounds := hall other hother
        omega

/-! ### What symbols mean -/

/-- The assignments are anchored in the word, and each one stops before the next one starts. -/
def Aligned (word : List Token) (as : List Assignment) : Prop :=
  (∀ a ∈ as, a.span.Anchored word) ∧ as.Pairwise fun a b => a.span.stop ≤ b.span.start

/-- The text between the braces of a payload token. -/
def Token.Sends (token : Token) (sent : Located String) : Prop :=
  token.kind = .payload sent.value ∧ sent.span = .ofText token.innerLocation sent.value.toList

/-- The spans of a statement are anchored in the word. -/
def Event.Anchored (word : List Token) : Event → Prop
  | .node s => s.span.Anchored word
  | .setting a => a.span.Anchored word
  | .edge s => s.span.Anchored word ∧ Aligned word s.options ∧
    ∀ sent, s.payload = some sent → ∃ token ∈ word, token.Sends sent ∧
      s.span.start ≤ token.span.start ∧ token.span.stop ≤ s.span.stop
  | .report _ => True

/-- The spans in what a symbol means are anchored in the word.  Nothing is said about symbols that
no statement takes a span from. -/
def Symbol.Anchors (word : List Token) : (x : Symbol) → x.Content → Prop
  | .terminal .identifier, said => Span.Anchored word said.span
  | .terminal .text, said => Span.Anchored word said.span
  | .terminal .number, said => Span.Anchored word said.span
  | .terminal .block, sent => ∃ token ∈ word, token.Sends sent
  | .nonterminal .value, said => Span.Anchored word said.span
  | .nonterminal .assignment, a => Span.Anchored word a.span
  | .nonterminal .setting, a => Span.Anchored word a.span
  | .nonterminal .assignmentList, as => Aligned word as
  | .nonterminal .assignments, as => Aligned word as
  | .nonterminal .options, as => Aligned word as
  | .nonterminal .payload, sent => ∀ inner, sent = some inner → ∃ token ∈ word, token.Sends inner
  | .nonterminal .edgeHead, _ => word ≠ []
  | .nonterminal .node, s => Event.Anchored word (.node s)
  | .nonterminal .edge, s => Event.Anchored word (.edge s)
  | .nonterminal .statement, said => ∀ event, said = some event → Event.Anchored word event
  | _, _ => True

/-- What the derivation means is anchored in its word. -/
def Derivation.Anchors {x : Symbol} (d : Derivation x) : Prop := x.Anchors d.word d.content

/-- What each of the derivations means is anchored in its word. -/
def Forest.Anchors : {xs : List Symbol} → Forest xs → Prop
  | _, .nil => True
  | _, .cons first rest => first.Anchors ∧ rest.Anchors

section

variable {word others : List Token} {as bs : List Assignment}

theorem Aligned.mono (h : Aligned word as) (hsub : word ⊆ others) : Aligned others as :=
  ⟨fun a ha => (h.1 a ha).mono hsub, h.2⟩

theorem Aligned.append (horder : InOrder (word ++ others)) (h : Aligned word as)
    (h' : Aligned others bs) : Aligned (word ++ others) (as ++ bs) := by
  refine ⟨List.forall_mem_append.2 ⟨(h.mono (List.subset_append_left _ _)).1,
    (h'.mono (List.subset_append_right _ _)).1⟩, List.pairwise_append.2 ⟨h.2, h'.2, ?_⟩⟩
  exact fun a ha b hb =>
    (h.1 a ha).stop_le_start (h'.1 b hb) (List.pairwise_append.1 horder).2.2

theorem aligned_singleton {a : Assignment} (h : a.span.Anchored word) : Aligned word [a] :=
  ⟨List.forall_mem_singleton.2 h, List.pairwise_singleton _ _⟩

theorem aligned_nil : Aligned word [] := ⟨List.forall_mem_nil _, .nil⟩

theorem Event.Anchored.mono {event : Event} (h : event.Anchored word) (hsub : word ⊆ others) :
    event.Anchored others := by
  cases event with
  | node s => exact Span.Anchored.mono h hsub
  | setting a => exact Span.Anchored.mono h hsub
  | edge s =>
    obtain ⟨hspan, hoptions, hpayload⟩ := h
    refine ⟨hspan.mono hsub, hoptions.mono hsub, fun sent hsent => ?_⟩
    obtain ⟨token, htoken, hsends⟩ := hpayload sent hsent
    exact ⟨token, hsub htoken, hsends⟩
  | report finding => trivial

end

/-- A token anchors what it tells. -/
theorem Token.anchors {t : Terminal} (token : Token) (stands : token.kind.terminal = .ok t)
    (hvisible : token.span.isEmpty = false) :
    Symbol.Anchors [token] (.terminal t) (token.data stands) := by
  have hanchored : token.span.Anchored [token] :=
    Span.anchored_token List.mem_cons_self hvisible
  obtain ⟨kind, text, span⟩ := token
  cases kind with
  | identifier name => cases stands; exact hanchored
  | text content => cases stands; exact hanchored
  | number n => cases stands; exact hanchored
  | payload inner => cases stands; exact ⟨_, List.mem_cons_self, rfl, rfl⟩
  | invalid mistake => cases stands
  | _ => cases stands; trivial

/-- **One rule** keeps what it means anchored, if what it is made of is. -/
theorem Rule.anchors : (rule : Rule) → (children : Forest rule.rhs) → Visible children.word →
    InOrder children.word → children.Anchors →
    Symbol.Anchors children.word (.nonterminal rule.lhs)
      (rule.content (spanOf children.word) children.contents)
  | .noStatements, .nil, _, _, _ => trivial
  | .moreStatements, .cons _ (.cons _ .nil), _, _, _ => trivial
  | .nodeStatement, .cons d .nil, _, _, h => by
    rintro event heq
    obtain rfl := Option.some.inj heq
    exact Event.Anchored.mono h.1 (List.subset_append_left _ _)
  | .edgeStatement, .cons d (.cons _ .nil), _, _, h => by
    rintro event heq
    obtain rfl := Option.some.inj heq
    exact Event.Anchored.mono h.1 (List.subset_append_left _ _)
  | .settingStatement, .cons d (.cons _ .nil), _, _, h => by
    rintro event heq
    obtain rfl := Option.some.inj heq
    exact Span.Anchored.mono h.1 (List.subset_append_left _ _)
  | .emptyStatement, .cons _ .nil, _, _, _ => fun event heq => by cases heq
  | .node, .cons (.leaf _ _) (.cons _ (.cons _ (.cons _ (.cons _ .nil)))), hvisible, _, _ =>
    (spanOf_anchored hvisible (List.cons_ne_nil _ _)).1
  | .noAssignments, .nil, _, _, _ => aligned_nil
  | .assignmentList, .cons d .nil, _, _, h => Aligned.mono h.1 (List.subset_append_left _ _)
  | .assignmentListComma, .cons d (.cons _ .nil), _, _, h =>
    Aligned.mono h.1 (List.subset_append_left _ _)
  | .firstAssignment, .cons d .nil, _, _, h =>
    aligned_singleton (Span.Anchored.mono h.1 (List.subset_append_left _ _))
  | .moreAssignments, .cons before (.cons _ (.cons last .nil)), _, horder, h => by
    have hlast : Span.Anchored _ (Assignment.span last.content) := h.2.2.1
    exact Aligned.append horder h.1 (aligned_singleton (hlast.mono fun token htoken =>
      List.mem_append_right _ (List.mem_append_left _ htoken)))
  | .assignment, .cons key (.cons _ (.cons assigned .nil)), _, _, h => by
    have hkey : Span.Anchored key.word (Located.span key.content) := h.1
    have hassigned : Span.Anchored assigned.word (Located.span assigned.content) := h.2.2.1
    exact (hkey.mono (List.subset_append_left _ _)).union (hassigned.mono fun token htoken =>
      List.mem_append_right _ (List.mem_append_right _ (List.mem_append_left _ htoken)))
  | .textValue, .cons d .nil, _, _, h => Span.Anchored.mono h.1 (List.subset_append_left _ _)
  | .numberValue, .cons d .nil, _, _, h => Span.Anchored.mono h.1 (List.subset_append_left _ _)
  | .wordValue, .cons d .nil, _, _, h => Span.Anchored.mono h.1 (List.subset_append_left _ _)
  | .edge, .cons head (.cons given (.cons sent .nil)), hvisible, _, h => by
    have hhead : head.word ≠ [] := h.1
    obtain ⟨hspan, hall⟩ := spanOf_anchored hvisible fun hnil => hhead (List.append_eq_nil_iff.1 hnil).1
    refine ⟨hspan, Aligned.mono h.2.1 fun token htoken =>
      List.mem_append_right _ (List.mem_append_left _ htoken), fun inner hinner => ?_⟩
    obtain ⟨token, htoken, hsends⟩ := h.2.2.1 inner hinner
    have hmem : token ∈ (Forest.cons head (.cons given (.cons sent .nil))).word :=
      List.mem_append_right _ (List.mem_append_right _ (List.mem_append_left _ htoken))
    exact ⟨token, hmem, hsends, hall token hmem⟩
  | .explicitHead, .cons (.leaf _ _) (.cons _ (.cons _ .nil)), _, _, _ => List.cons_ne_nil _ _
  | .implicitHead, .cons (.leaf _ _) (.cons _ .nil), _, _, _ => List.cons_ne_nil _ _
  | .noOptions, .nil, _, _, _ => aligned_nil
  | .moreOptions, .cons before (.cons last .nil), _, horder, h => by
    have hlast : Span.Anchored last.word (Assignment.span last.content) := h.2.1
    exact Aligned.append horder h.1 (aligned_singleton (hlast.mono (List.subset_append_left _ _)))
  | .noPayload, .nil, _, _, _ => fun inner heq => by cases heq
  | .payload, .cons d .nil, _, _, h => by
    rintro inner heq
    obtain rfl := Option.some.inj heq
    obtain ⟨token, htoken, hsends⟩ := h.1
    exact ⟨token, List.mem_append_left _ htoken, hsends⟩
  | .setting, .cons key (.cons _ (.cons assigned .nil)), _, _, h => by
    have hkey : Span.Anchored key.word (Located.span key.content) := h.1
    have hassigned : Span.Anchored assigned.word (Located.span assigned.content) := h.2.2.1
    exact (hkey.mono (List.subset_append_left _ _)).union (hassigned.mono fun token htoken =>
      List.mem_append_right _ (List.mem_append_right _ (List.mem_append_left _ htoken)))

mutual

/-- **What a derivation means** is anchored in its word. -/
theorem Derivation.anchors : {x : Symbol} → (d : Derivation x) → Visible d.word → InOrder d.word →
    d.Anchors
  | _, .leaf token stands, hvisible, _ => token.anchors stands (hvisible token List.mem_cons_self)
  | _, .branch rule children, hvisible, horder =>
    rule.anchors children hvisible horder (children.anchors hvisible horder)

/-- What derivations in a row mean is anchored in their words. -/
theorem Forest.anchors : {xs : List Symbol} → (f : Forest xs) → Visible f.word → InOrder f.word →
    f.Anchors
  | _, .nil, _, _ => trivial
  | _, .cons first rest, hvisible, horder =>
    ⟨first.anchors (fun token h => hvisible token (List.mem_append_left _ h))
      (List.pairwise_append.1 horder).1,
    rest.anchors (fun token h => hvisible token (List.mem_append_right _ h))
      (List.pairwise_append.1 horder).2.1⟩

end

end CallGraph
