import CallGraph.Proofs.Parser.Handover
import CallGraph.Proofs.Token.Locality
import CallGraph.Proofs.Token.Tiling

/-!
# Names

What a statement calls by name is an identifier of the text, and so it has letters, digits and underscores
only.

* `IsName` — a letter or an underscore, and then letters, digits and underscores;
* `Lexeme.isName_of_kind`, `isName_of_mem_tokens` — identifiers are names;
* `Rule.named`, `Derivation.named` — a statement has the names of the identifiers that it is made of;
* `named_parse` — **the names in a text** are names.
-/

namespace CallGraph

/-- A letter or an underscore, and then letters, digits and underscores. -/
def IsName (text : List Char) : Prop :=
  ∃ c cs, text = c :: cs ∧ isNameStart c = true ∧ ∀ d ∈ text, isNamePart d = true

/-! ### Identifiers -/

namespace Lexeme

variable {name : String}

theorem isName_of_simple {c : Char} {cs : List Char} (h : (simple c cs).kind = .identifier name) :
    IsName name.toList := by
  unfold simple at h
  split at h
  · cases h
  · split at h
    · rename_i kind hkind
      unfold punctuation? at hkind
      split at hkind <;> cases hkind <;> cases h
    · split at h
      case isTrue hstart =>
        obtain rfl := TokenKind.identifier.inj h
        rw [String.toList_ofList]
        refine ⟨c, _, rfl, hstart, List.forall_mem_cons.2 ⟨isNamePart_of_isNameStart hstart, ?_⟩⟩
        exact List.all_eq_true.1 List.all_takeWhile
      case isFalse => cases h

/-- **A lexeme that is an identifier** is a name. -/
theorem isName_of_kind {c : Char} {cs : List Char} (h : (lexeme c cs).kind = .identifier name) :
    IsName name.toList := by
  have hnumeral : ∀ sign input, (numeral sign input).kind ≠ .identifier name := by
    intro sign input hkind
    rcases kind_numeral_cases sign input with ⟨n, heq⟩ | heq <;> rw [heq] at hkind <;> cases hkind
  unfold lexeme at h
  split at h
  · unfold quoted at h
    dsimp only at h
    split at h
    · cases h
    · split at h
      · split at h <;> cases h
      · cases h
    · cases h
  split at h
  · unfold block at h
    split at h <;> cases h
  split at h
  · exact absurd h (hnumeral _ _)
  split at h
  · exact absurd h (hnumeral _ _)
  · exact isName_of_simple h

end Lexeme

theorem Scanner.isName_of_mem_tokens {s : Scanner} {token : Token} (h : token ∈ s.tokens.1) {name : String}
    (hkind : token.kind = .identifier name) : IsName name.toList := by
  obtain ⟨c, cs, heq, -⟩ := s.exists_lexeme token h
  exact Lexeme.isName_of_kind (heq ▸ hkind)

/-! ### What symbols mean -/

section

variable (P : String → Prop)

/-- All keys of the assignments have the property. -/
def KeysNamed (as : List Assignment) : Prop := ∀ a ∈ as, P a.key.value

/-- All names in a statement have the property. -/
def Event.Named : Event → Prop
  | .node s => P s.name.value ∧ KeysNamed P s.attributes
  | .edge s => (∀ source, s.source = some source → P source.value) ∧ P s.target.value ∧
    KeysNamed P s.options
  | .setting a => P a.key.value
  | .report _ => True

/-- All names in what a symbol means have the property.  The values of assignments are left out. -/
def Symbol.Named : (x : Symbol) → x.Content → Prop
  | .terminal .identifier, said => P said.value
  | .nonterminal .assignment, a => P a.key.value
  | .nonterminal .setting, a => P a.key.value
  | .nonterminal .assignmentList, as => KeysNamed P as
  | .nonterminal .assignments, as => KeysNamed P as
  | .nonterminal .options, as => KeysNamed P as
  | .nonterminal .edgeHead, ends => (∀ source, ends.1 = some source → P source.value) ∧ P ends.2.value
  | .nonterminal .node, s => Event.Named P (.node s)
  | .nonterminal .edge, s => Event.Named P (.edge s)
  | .nonterminal .statement, said => ∀ event, said = some event → Event.Named P event
  | _, _ => True

/-- All names in what a derivation means have the property. -/
def Derivation.Named {x : Symbol} (d : Derivation x) : Prop := x.Named P d.content

/-- All names in what each of the derivations means have the property. -/
def Forest.Named : {xs : List Symbol} → Forest xs → Prop
  | _, .nil => True
  | _, .cons first rest => first.Named P ∧ rest.Named

/-- All identifiers among the tokens have the property. -/
def NamesIn (word : List Token) : Prop :=
  ∀ token ∈ word, ∀ name, token.kind = .identifier name → P name

end

section

variable {P : String → Prop}

/-- A token has the name that it is. -/
theorem Token.named {t : Terminal} (token : Token) (stands : token.kind.terminal = .ok t)
    (h : NamesIn P [token]) : Symbol.Named P (.terminal t) (token.data stands) := by
  have hname := h token List.mem_cons_self
  obtain ⟨kind, text, span⟩ := token
  cases kind with
  | identifier name => cases stands; exact hname name rfl
  | invalid mistake => cases stands
  | _ => cases stands; trivial

theorem keysNamed_nil : KeysNamed P [] := List.forall_mem_nil _

theorem KeysNamed.concat {as : List Assignment} {a : Assignment} (h : KeysNamed P as)
    (ha : P a.key.value) : KeysNamed P (as ++ [a]) :=
  List.forall_mem_append.2 ⟨h, List.forall_mem_singleton.2 ha⟩

/-- **One rule** has the names of what it is made of. -/
theorem Rule.named : (rule : Rule) → (children : Forest rule.rhs) → (span : Span) →
    children.Named P → Symbol.Named P (.nonterminal rule.lhs) (rule.content span children.contents)
  | .noStatements, .nil, _, _ => trivial
  | .moreStatements, .cons _ (.cons _ .nil), _, _ => trivial
  | .nodeStatement, .cons _ .nil, _, h => by
    rintro event heq
    obtain rfl := Option.some.inj heq
    exact h.1
  | .edgeStatement, .cons _ (.cons _ .nil), _, h => by
    rintro event heq
    obtain rfl := Option.some.inj heq
    exact h.1
  | .settingStatement, .cons _ (.cons _ .nil), _, h => by
    rintro event heq
    obtain rfl := Option.some.inj heq
    exact h.1
  | .emptyStatement, .cons _ .nil, _, _ => fun event heq => by cases heq
  | .node, .cons _ (.cons _ (.cons _ (.cons _ (.cons _ .nil)))), _, h => ⟨h.2.1, h.2.2.2.1⟩
  | .noAssignments, .nil, _, _ => keysNamed_nil
  | .assignmentList, .cons _ .nil, _, h => h.1
  | .assignmentListComma, .cons _ (.cons _ .nil), _, h => h.1
  | .firstAssignment, .cons _ .nil, _, h => keysNamed_nil.concat h.1
  | .moreAssignments, .cons _ (.cons _ (.cons _ .nil)), _, h => KeysNamed.concat h.1 h.2.2.1
  | .assignment, .cons _ (.cons _ (.cons _ .nil)), _, h => h.1
  | .textValue, .cons _ .nil, _, _ => trivial
  | .numberValue, .cons _ .nil, _, _ => trivial
  | .wordValue, .cons _ .nil, _, _ => trivial
  | .edge, .cons _ (.cons _ (.cons _ .nil)), _, h => ⟨h.1.1, h.1.2, h.2.1⟩
  | .explicitHead, .cons _ (.cons _ (.cons _ .nil)), _, h =>
    ⟨fun source heq => Option.some.inj heq ▸ h.1, h.2.2.1⟩
  | .implicitHead, .cons _ (.cons _ .nil), _, h =>
    ⟨fun source heq => absurd heq (Option.some_ne_none source).symm, h.2.1⟩
  | .noOptions, .nil, _, _ => keysNamed_nil
  | .moreOptions, .cons _ (.cons _ .nil), _, h => KeysNamed.concat h.1 h.2.1
  | .noPayload, .nil, _, _ => trivial
  | .payload, .cons _ .nil, _, _ => trivial
  | .setting, .cons _ (.cons _ (.cons _ .nil)), _, h => h.1

mutual

/-- **A derivation** has the names of its tokens. -/
theorem Derivation.named : {x : Symbol} → (d : Derivation x) → NamesIn P d.word → d.Named P
  | _, .leaf token stands, h => token.named stands h
  | _, .branch rule children, h => rule.named children _ (children.named h)

/-- Derivations in a row have the names of their tokens. -/
theorem Forest.named : {xs : List Symbol} → (f : Forest xs) → NamesIn P f.word → f.Named P
  | _, .nil, _ => trivial
  | _, .cons first rest, h =>
    ⟨first.named fun token htoken => h token (List.mem_append_left _ htoken),
      rest.named fun token htoken => h token (List.mem_append_right _ htoken)⟩

end

/-- What is handed over has the names of the tokens. -/
theorem HandsOver.named {m : Machine} {tokens : List Token} {last : Token} {parsed : Parse}
    (h : HandsOver m [] tokens last parsed) (hnames : NamesIn P tokens) :
    ∀ event ∈ parsed.events, event.Named P := by
  obtain ⟨ds, hds, hwords⟩ := h.statements
  intro event hevent
  by_cases hstatement : event.isStatement = true
  · have hmem : event ∈ statementsOf parsed.events := List.mem_filter.2 ⟨hevent, hstatement⟩
    rw [hds] at hmem
    obtain ⟨d, hd, hevent⟩ := List.mem_flatMap.1 hmem
    have hnamed : ∀ event, d.content = some event → event.Named P := d.named fun token htoken =>
      hnames token (hwords.subset (List.mem_flatMap.2 ⟨d, hd, htoken⟩))
    exact hnamed event (Option.mem_toList.1 hevent)
  · cases event with
    | report finding => trivial
    | _ => exact absurd rfl hstatement

end

/-- **The names in a text** have letters, digits and underscores only. -/
theorem named_parse (budget : Nat) (origin : Location) (text : String) :
    ∀ event ∈ (parse budget origin text).events, event.Named fun name => IsName name.toList :=
  (parse_handsOver budget origin text).named fun _ htoken _ hkind =>
    Scanner.isName_of_mem_tokens htoken hkind

end CallGraph
