import Mathlib.Computability.ContextFreeGrammar
import CallGraph.Proofs.Grammar.Automaton
import CallGraph.Proofs.Grammar.Derivation

/-!
# The language of the grammar

`grammar` is the context-free grammar with the rules of `Rule`, over terminals.

* `Forest.derives` — a derivation rewrites the symbols at its roots into the terminals of its word;
* `exists_forest_of_derives` — conversely, symbols that can be rewritten into the terminals of some
  tokens have derivations with these tokens;
* `exists_derivation_iff` — so the tokens that have a derivation are those whose terminals are a
  word of the language.
-/

/-- A symbol of a sentential form. -/
abbrev FormSymbol (T N : Type) : Type := Symbol T N

namespace CallGraph

/-! ### The context-free grammar -/

/-- The symbol in a sentential form. -/
def Symbol.inForm : Symbol → FormSymbol Terminal Nonterminal
  | .terminal t => .terminal t
  | .nonterminal n => .nonterminal n

/-- The rule as one of a context-free grammar. -/
def Rule.rewriting (rule : Rule) : ContextFreeRule Terminal Nonterminal :=
  ⟨rule.lhs, rule.rhs.map Symbol.inForm⟩

/-- The grammar of a unit: a word is what `statements` can be rewritten into. -/
def grammar : ContextFreeGrammar Terminal where
  NT := Nonterminal
  initial := .statements
  rules := (Rule.all.map Rule.rewriting).toFinset

/-- The terminal that a token stands for, if it is not a mistake. -/
def Token.terminal? (token : Token) : Option Terminal := token.kind.terminal.toOption

/-- The terminals that the tokens stand for. -/
def terminalsOf (tokens : List Token) : List Terminal := tokens.filterMap Token.terminal?

theorem Symbol.inForm_injective : Function.Injective Symbol.inForm := by
  intro x y h
  cases x <;> cases y <;> simp only [inForm, reduceCtorEq] at h <;> cases h <;> rfl

theorem mem_rules {r : ContextFreeRule Terminal Nonterminal} :
    r ∈ grammar.rules ↔ ∃ rule : Rule, rule.rewriting = r := by
  show r ∈ (Rule.all.map Rule.rewriting).toFinset ↔ _
  rw [List.mem_toFinset, List.mem_map]
  exact ⟨fun ⟨rule, _, h⟩ => ⟨rule, h⟩, fun ⟨rule, h⟩ => ⟨rule, rule.mem_all, h⟩⟩

theorem terminal?_eq_some {token : Token} {t : Terminal} :
    token.terminal? = some t ↔ token.kind.terminal = .ok t := by
  unfold Token.terminal?
  cases token.kind.terminal with
  | error mistake => simp only [Except.toOption, reduceCtorEq]
  | ok u => simp only [Except.toOption, Option.some.injEq, Except.ok.injEq]

theorem terminalsOf_append (tokens others : List Token) :
    terminalsOf (tokens ++ others) = terminalsOf tokens ++ terminalsOf others :=
  List.filterMap_append

theorem terminalsOf_cons {token : Token} {t : Terminal} (h : token.kind.terminal = .ok t)
    (tokens : List Token) : terminalsOf (token :: tokens) = t :: terminalsOf tokens := by
  rw [terminalsOf, List.filterMap_cons_some (terminal?_eq_some.2 h)]
  rfl

/-- A token stands for a terminal unless it is a mistake. -/
theorem exists_terminal_iff {token : Token} :
    (∃ t, token.kind.terminal = .ok t) ↔ ∀ mistake, token.kind ≠ .invalid mistake := by
  obtain ⟨kind, text, span⟩ := token
  cases kind <;> simp [TokenKind.terminal]

/-! ### From derivations to rewriting -/

mutual

/-- The root of a derivation can be rewritten into its word. -/
theorem Derivation.derives : {x : Symbol} → (d : Derivation x) →
    grammar.Derives [x.inForm] ((terminalsOf d.word).map .terminal)
  | _, .leaf token stands => by
    rw [Derivation.word, terminalsOf_cons stands]
    exact .refl _
  | _, .branch rule children => by
    have hrewrites : grammar.Produces [.nonterminal rule.lhs] (rule.rhs.map Symbol.inForm) :=
      ⟨rule.rewriting, mem_rules.2 ⟨rule, rfl⟩, .input_output⟩
    exact hrewrites.trans_derives children.derives

/-- **Derivations are rewritings.**  Symbols in a row can be rewritten into the word of each of
their derivations. -/
theorem Forest.derives : {xs : List Symbol} → (f : Forest xs) →
    grammar.Derives (xs.map Symbol.inForm) ((terminalsOf f.word).map .terminal)
  | _, .nil => .refl _
  | _, @Forest.cons x xs first rest => by
    have hfirst := first.derives.append_right (xs.map Symbol.inForm)
    have hrest := rest.derives.append_left ((terminalsOf first.word).map .terminal)
    rw [Forest.word, terminalsOf_append, List.map_append]
    exact hfirst.trans hrest

end

/-! ### From rewriting to derivations -/

/-- Derivations in a row are put together. -/
theorem Forest.exists_append {xs ys : List Symbol} (f : Forest xs) (g : Forest ys) :
    ∃ h : Forest (xs ++ ys), h.word = f.word ++ g.word := by
  match xs, f with
  | _, .nil => exact ⟨g, rfl⟩
  | _, .cons first rest =>
    obtain ⟨h, hword⟩ := rest.exists_append g
    refine ⟨.cons first h, ?_⟩
    rw [Forest.word, Forest.word, hword, List.append_assoc]

/-- Derivations in a row are taken apart. -/
theorem Forest.exists_split {xs ys : List Symbol} (h : Forest (xs ++ ys)) :
    ∃ (f : Forest xs) (g : Forest ys), h.word = f.word ++ g.word := by
  induction xs with
  | nil => exact ⟨.nil, h, rfl⟩
  | cons x xs ih =>
    cases h with
    | cons first rest =>
      obtain ⟨f, g, hword⟩ := ih rest
      refine ⟨.cons first f, g, ?_⟩
      rw [Forest.word, Forest.word, hword, List.append_assoc]

/-- Tokens that stand for the symbols themselves derive them. -/
theorem exists_forest_of_terminals {xs : List Symbol} {tokens : List Token}
    (hvalid : ∀ token ∈ tokens, ∃ t, token.kind.terminal = .ok t)
    (h : xs.map Symbol.inForm = (terminalsOf tokens).map .terminal) :
    ∃ f : Forest xs, f.word = tokens := by
  induction tokens generalizing xs with
  | nil =>
    obtain rfl := List.map_eq_nil_iff.1 h
    exact ⟨.nil, rfl⟩
  | cons token tokens ih =>
    obtain ⟨t, ht⟩ := hvalid token List.mem_cons_self
    rw [terminalsOf_cons ht, List.map_cons] at h
    obtain ⟨x, xs, rfl, hx, hxs⟩ := List.map_eq_cons_iff.1 h
    obtain rfl : x = .terminal t := Symbol.inForm_injective hx
    obtain ⟨f, hf⟩ := ih (fun token h => hvalid token (List.mem_cons_of_mem _ h)) hxs
    exact ⟨.cons (.leaf token ht) f, congrArg (token :: ·) hf⟩

/-- **Rewritings are derivations.**  If symbols in a row can be rewritten into the terminals of the
tokens, they have a derivation with these tokens. -/
theorem exists_forest_of_derives {tokens : List Token}
    (hvalid : ∀ token ∈ tokens, ∃ t, token.kind.terminal = .ok t)
    {form : List (FormSymbol Terminal grammar.NT)} {xs : List Symbol}
    (hform : xs.map Symbol.inForm = form)
    (h : grammar.Derives form ((terminalsOf tokens).map .terminal)) :
    ∃ f : Forest xs, f.word = tokens := by
  -- The induction goes back from the terminals, one rewriting at a time.
  induction h using Relation.ReflTransGen.head_induction_on generalizing xs with
  | refl => exact exists_forest_of_terminals hvalid hform
  | head hproduces _ ih =>
    obtain ⟨r, hr, hrewrites⟩ := hproduces
    obtain ⟨rule, rfl⟩ := mem_rules.1 hr
    obtain ⟨before, behind, rfl, rfl⟩ := hrewrites.exists_parts
    obtain ⟨upper, ys, rfl, hupper, rfl⟩ := List.map_eq_append_iff.1 hform
    obtain ⟨xs, middle, rfl, rfl, hmiddle⟩ := List.map_eq_append_iff.1 hupper
    obtain rfl : middle = [.nonterminal rule.lhs] :=
      List.map_injective_iff.2 Symbol.inForm_injective hmiddle
    have hrhs : (xs ++ rule.rhs ++ ys).map Symbol.inForm =
        xs.map Symbol.inForm ++ rule.rewriting.output ++ ys.map Symbol.inForm := by
      rw [List.map_append, List.map_append]
      rfl
    obtain ⟨f, hf⟩ := ih hrhs
    obtain ⟨f, last, hlast⟩ := f.exists_split
    obtain ⟨first, children, hfirst⟩ := f.exists_split
    obtain ⟨g, hg⟩ := first.exists_append (.cons (.branch rule children) .nil)
    obtain ⟨g', hg'⟩ := g.exists_append last
    refine ⟨g', ?_⟩
    rw [hg', hg, ← hf, hlast, hfirst, Forest.word, Forest.word, Derivation.word, List.append_nil]

/-- **The words of the language.**  Tokens have a derivation if and only if none of them is a
mistake and the grammar generates their terminals. -/
theorem exists_derivation_iff {tokens : List Token} :
    (∃ d : Derivation (.nonterminal .statements), d.word = tokens) ↔
      (∀ token ∈ tokens, ∀ mistake, token.kind ≠ .invalid mistake) ∧
        terminalsOf tokens ∈ grammar.language := by
  constructor
  · rintro ⟨d, rfl⟩
    exact ⟨fun token h => exists_terminal_iff.1 (d.exists_terminal h), d.derives⟩
  · rintro ⟨hvalid, hgenerates⟩
    have hvalid' : ∀ token ∈ tokens, ∃ t, token.kind.terminal = .ok t :=
      fun token h => exists_terminal_iff.2 (hvalid token h)
    obtain ⟨f, hf⟩ : ∃ f : Forest [.nonterminal .statements], f.word = tokens :=
      exists_forest_of_derives hvalid' rfl hgenerates
    cases f with
    | cons d rest =>
      cases rest with
      | nil => exact ⟨d, (List.append_nil _).symm.trans hf⟩

end CallGraph
