import CallGraph.Proofs.Parser.Completion

/-!
# Salvaging statements

What can be salvaged from a list of tokens is told without a parser, by the grammar alone: complete
statements are read one after the other.  A token that can neither go on with the statement that has
begun nor start one is skipped together with what has begun, up to and including the next semicolon
or right bracket.

* `Viable` — the tokens are the beginning of a statement;
* `Salvages` — the tokens are cut into complete statements and discarded regions;
* `Salvages.flatMap_word` — each token belongs to exactly one of them, and the order is kept;
* `Salvages.unique` — there is one way to cut.
-/

namespace CallGraph

/-! ### Beginnings of statements -/

/-- The tokens are the beginning of a statement. -/
def Viable (tokens : List Token) : Prop :=
  ∃ missing : List Terminal, grammar.Derives [Symbol.inForm (.nonterminal .statement)]
    ((terminalsOf tokens ++ missing).map .terminal)

theorem viable_of_word {d : Derivation (.nonterminal .statement)} {tokens missing : List Token}
    (h : d.word = tokens ++ missing) : Viable tokens := by
  have hderives := d.derives
  rw [h, terminalsOf_append] at hderives
  exact ⟨terminalsOf missing, hderives⟩

theorem terminalsOf_standIn (missing : List Terminal) :
    terminalsOf (missing.map Terminal.standIn) = missing := by
  induction missing with
  | nil => rfl
  | cons t missing ih => rw [List.map_cons, terminalsOf_cons t.standIn_stands, ih]

theorem Visible.append {word other : List Token} (h : Visible word) (h' : Visible other) :
    Visible (word ++ other) := by
  intro token htoken
  rcases List.mem_append.1 htoken with hword | hother
  · exact h token hword
  · exact h' token hother

/-- Behind a word that stands for terminals, tokens that are made up do so, too. -/
theorem standIn_stands_behind {tokens : List Token}
    (hvalid : ∀ token ∈ tokens, ∃ t, token.kind.terminal = .ok t) (missing : List Terminal) :
    ∀ token ∈ tokens ++ missing.map Terminal.standIn, ∃ t, token.kind.terminal = .ok t := by
  intro token htoken
  rcases List.mem_append.1 htoken with htoken | htoken
  · exact hvalid token htoken
  · obtain ⟨t, -, rfl⟩ := List.mem_map.1 htoken
    exact ⟨t, t.standIn_stands⟩

theorem Visible.append_standIn {tokens : List Token} (h : Visible tokens) (missing : List Terminal) :
    Visible (tokens ++ missing.map Terminal.standIn) := by
  refine h.append fun token htoken => ?_
  obtain ⟨t, -, rfl⟩ := List.mem_map.1 htoken
  rfl

/-- The beginning of a statement goes on to the end of some statement. -/
theorem Viable.exists_word {tokens : List Token} (h : Viable tokens) (hvisible : Visible tokens)
    (hvalid : ∀ token ∈ tokens, ∃ t, token.kind.terminal = .ok t) :
    ∃ (d : Derivation (.nonterminal .statement)) (missing : List Token),
      Visible d.word ∧ d.word = tokens ++ missing := by
  obtain ⟨missing, hderives⟩ := h
  let others := missing.map Terminal.standIn
  obtain ⟨f, hf⟩ : ∃ f : Forest [.nonterminal .statement], f.word = tokens ++ others := by
    refine exists_forest_of_derives (standIn_stands_behind hvalid missing) rfl ?_
    rw [terminalsOf_append, terminalsOf_standIn]
    exact hderives
  cases f with
  | cons d rest =>
    cases rest with
    | nil =>
      have hword : d.word = tokens ++ others := (List.append_nil _).symm.trans hf
      exact ⟨d, others, hword ▸ hvisible.append_standIn missing, hword⟩

/-! ### Cutting tokens into statements and discarded regions -/

/-- Where discarding ends: a semicolon or a right bracket. -/
def Token.IsMark (token : Token) : Prop := token.kind = .semicolon ∨ token.kind = .rightBracket

/-- `Discards ahead skipped behind` says that the tokens `skipped` are the ones up to and including the
first mark, and that the tokens `behind` are left. -/
inductive Discards : List Token → List Token → List Token → Prop where
  | mark {token : Token} {behind : List Token} : token.IsMark →
    Discards (token :: behind) [token] behind
  | skip {token : Token} {ahead skipped behind : List Token} : ¬ token.IsMark →
    Discards ahead skipped behind → Discards (token :: ahead) (token :: skipped) behind

/-- A part of a list of tokens. -/
inductive Segment where
  /-- A complete statement. -/
  | statement (d : Derivation (.nonterminal .statement))
  /-- Tokens that are discarded. -/
  | discarded (tokens : List Token)

/-- The tokens of the part. -/
def Segment.word : Segment → List Token
  | .statement d => d.word
  | .discarded tokens => tokens

/-- What the part hands over: an empty statement nothing, and discarded tokens neither. -/
def Segment.events : Segment → List Event
  | .statement d => d.events
  | .discarded _ => []

/-- `Salvages begun ahead segments` says how the tokens `begun`, which are the beginning of a
statement or none at all, and the tokens ahead of them are cut into segments. -/
inductive Salvages : List Token → List Token → List Segment → Prop where
  /-- The end is reached between two statements. -/
  | done : Salvages [] [] []
  /-- The token completes the statement. -/
  | complete {begun ahead : List Token} {token : Token} {segments : List Segment}
    {d : Derivation (.nonterminal .statement)} : d.word = begun ++ [token] →
    Salvages [] ahead segments → Salvages begun (token :: ahead) (.statement d :: segments)
  /-- The token goes on with the statement. -/
  | goOn {begun ahead : List Token} {token : Token} {segments : List Segment} :
    Viable (begun ++ [token]) →
    (∀ d : Derivation (.nonterminal .statement), d.word ≠ begun ++ [token]) →
    Salvages (begun ++ [token]) ahead segments → Salvages begun (token :: ahead) segments
  /-- The token can do neither: everything up to and including the first mark is discarded. -/
  | discard {begun ahead skipped behind : List Token} {token : Token} {segments : List Segment} :
    ¬ Viable (begun ++ [token]) → Discards (token :: ahead) skipped behind →
    Salvages [] behind segments →
    Salvages begun (token :: ahead) (.discarded (begun ++ skipped) :: segments)

namespace Discards

variable {ahead skipped skipped' behind behind' : List Token}

theorem append_eq (h : Discards ahead skipped behind) : skipped ++ behind = ahead := by
  induction h with
  | mark _ => rfl
  | skip _ _ ih => rw [List.cons_append, ih]

/-- The first mark is in one place only. -/
theorem unique (h : Discards ahead skipped behind) (h' : Discards ahead skipped' behind') :
    skipped' = skipped ∧ behind' = behind := by
  induction h generalizing skipped' with
  | mark hmark =>
    cases h' with
    | mark _ => exact ⟨rfl, rfl⟩
    | skip hother _ => exact absurd hmark hother
  | skip hother _ ih =>
    cases h' with
    | mark hmark => exact absurd hmark hother
    | skip _ h' =>
      obtain ⟨rfl, rfl⟩ := ih h'
      exact ⟨rfl, rfl⟩

end Discards

namespace Salvages

variable {begun ahead : List Token} {segments segments' : List Segment}

/-- Each token belongs to one segment, and the order is kept. -/
theorem flatMap_word (h : Salvages begun ahead segments) :
    segments.flatMap Segment.word = begun ++ ahead := by
  induction h with
  | done => rfl
  | complete hword _ ih =>
    rw [List.flatMap_cons, ih, Segment.word, hword, List.nil_append, List.append_assoc]
    rfl
  | goOn _ _ _ ih =>
    rw [ih, List.append_assoc]
    rfl
  | discard _ hdiscards _ ih =>
    rw [List.flatMap_cons, ih, Segment.word, List.nil_append, List.append_assoc,
      hdiscards.append_eq]

/-- **There is one way to cut.** -/
theorem unique (h : Salvages begun ahead segments) (h' : Salvages begun ahead segments')
    (hvisible : Visible (begun ++ ahead)) : segments' = segments := by
  induction h generalizing segments' with
  | done =>
    cases h'
    rfl
  | @complete begun ahead token segments d hword _ ih =>
    rw [List.append_cons, ← hword] at hvisible
    have hrest : Visible ([] ++ ahead) :=
      fun token h => hvisible token (List.mem_append_right _ h)
    cases h' with
    | @complete _ _ _ _ d' hword' h' =>
      have hfirst : Visible d.word := fun token h => hvisible token (List.mem_append_left _ h)
      have hsame : d.word = d'.word ++ [] := by rw [List.append_nil, hword, hword']
      obtain ⟨-, rfl⟩ := statement_unique hfirst hsame
      rw [ih h' hrest]
    | goOn _ hopen _ => exact absurd hword (hopen d)
    | discard hviable _ _ =>
      exact absurd (viable_of_word (hword.trans (List.append_nil _).symm)) hviable
  | @goOn begun ahead token segments hviable hopen _ ih =>
    cases h' with
    | @complete _ _ _ _ d' hword' _ => exact absurd hword' (hopen d')
    | goOn _ _ h' =>
      refine ih h' ?_
      rw [List.append_assoc]
      exact hvisible
    | discard hviable' _ _ => exact absurd hviable hviable'
  | @discard begun ahead skipped behind token segments hviable hdiscards _ ih =>
    have hrest : Visible ([] ++ behind) := by
      intro token htoken
      refine hvisible token (List.mem_append_right _ ?_)
      rw [← hdiscards.append_eq]
      exact List.mem_append_right _ htoken
    cases h' with
    | complete hword' _ =>
      exact absurd (viable_of_word (hword'.trans (List.append_nil _).symm)) hviable
    | goOn hviable' _ _ => exact absurd hviable' hviable
    | discard _ hdiscards' h' =>
      obtain ⟨rfl, rfl⟩ := hdiscards.unique hdiscards'
      rw [ih h' hrest]

end Salvages

end CallGraph
