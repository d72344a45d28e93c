import CallGraph.Token.Lexeme

/-!
# Braces of a payload

A payload ends at the brace that closes it.  The scanner counts the braces that are open; it never
counts below zero.

* `braceDepth` — how many more braces a text opens than it closes; in some texts fewer than none;
* `braceDepth_of_scanned` — in a payload some brace is open before the last one;
* `block_staysOpen` — so a payload ends where all braces are closed for the first time.
-/

namespace CallGraph

/-- What a character adds to the number of open braces. -/
def Quotation.weight (q : Quotation) (c : Char) : Int :=
  if q ≠ .outside then 0
  else if c = '\x7b' then 1
  else if c = '\x7d' then -1
  else 0

/-- How many more braces the text opens than it closes.  Only braces outside quoted texts count. -/
def braceDepth : Quotation → List Char → Int
  | _, [] => 0
  | q, c :: text => q.weight c + braceDepth (q.next c) text

/-- Between its first and its last character some brace of the text is open. -/
def StaysOpen (text : List Char) : Prop :=
  ∀ passed, passed <+: text → passed ≠ [] → passed ≠ text → 0 < braceDepth .outside passed

section

variable {opened : Nat} {q : Quotation} {c : Char} {input inner rest passed : List Char}

/-- Where a brace may be closed, the count of the scanner follows the depth. -/
theorem braces_eq (h : ¬ (opened = 0 ∧ q = .outside ∧ c = '\x7d')) :
    (q.braces opened c : Int) = opened + q.weight c := by
  unfold Quotation.braces Quotation.weight
  split
  · exact (Int.add_zero _).symm
  · split
    · rfl
    · split
      · rename_i hq _ hc
        have hopened : opened ≠ 0 := fun hzero => h ⟨hzero, Decidable.not_not.1 hq, hc⟩
        omega
      · exact (Int.add_zero _).symm

/-- What the scan of a payload passes before the brace that closes it. -/
def scanned (opened : Nat) (q : Quotation) (input : List Char) : List Char :=
  ((blockBody opened q input).map Prod.fst).getD input

theorem scanned_cons (h : ¬ (opened = 0 ∧ q = .outside ∧ c = '\x7d')) (input : List Char) :
    scanned opened q (c :: input) = c :: scanned (q.braces opened c) (q.next c) input := by
  rw [scanned, scanned, blockBody, if_neg h]
  cases blockBody (q.braces opened c) (q.next c) input <;> rfl

/-- **The scan never counts below zero.**  It passes no brace that closes more than has been opened. -/
theorem braceDepth_of_scanned (h : passed <+: scanned opened q input) :
    0 ≤ opened + braceDepth q passed := by
  induction input generalizing opened q passed with
  | nil =>
    obtain rfl := List.prefix_nil.1 h
    exact Int.natCast_nonneg opened
  | cons c input ih =>
    by_cases hcloses : opened = 0 ∧ q = .outside ∧ c = '\x7d'
    · rw [scanned, blockBody, if_pos hcloses] at h
      obtain rfl := List.prefix_nil.1 h
      exact Int.natCast_nonneg opened
    · rw [scanned_cons hcloses] at h
      rcases List.prefix_cons_iff.1 h with rfl | ⟨passed, rfl, hpassed⟩
      · exact Int.natCast_nonneg opened
      · have hrest := ih hpassed
        rw [braces_eq hcloses] at hrest
        rw [braceDepth]
        omega

/-- The scan stops where one more brace has been closed than had been opened. -/
theorem braceDepth_of_blockBody (h : blockBody opened q input = some (inner, rest)) :
    opened + braceDepth q (inner ++ ['\x7d']) = -1 := by
  induction input generalizing opened q inner with
  | nil => cases h
  | cons c input ih =>
    rw [blockBody] at h
    split at h
    case isTrue hcloses =>
      obtain ⟨rfl, rfl, rfl⟩ := hcloses
      obtain ⟨rfl, -⟩ := Prod.mk.inj (Option.some.inj h)
      rfl
    case isFalse hcloses =>
      obtain ⟨⟨inner', rest'⟩, hbody, heq⟩ := Option.map_eq_some_iff.1 h
      obtain ⟨rfl, rfl⟩ := Prod.mk.inj heq
      have hrest := ih hbody
      rw [braces_eq hcloses] at hrest
      rw [List.cons_append, braceDepth]
      omega

end

theorem braceDepth_cons_brace (text : List Char) :
    braceDepth .outside ('\x7b' :: text) = 1 + braceDepth .outside text := rfl

/-- **A payload is closed by its last brace.**  Behind its first brace and before its last one some brace
is open.  It closes all of them if it ends, and leaves some open otherwise. -/
theorem block_staysOpen (input : List Char) :
    StaysOpen (block input).text ∧
      ((∃ inner, (block input).kind = .payload inner) ∧ braceDepth .outside (block input).text = 0 ∨
        (block input).kind = .invalid .unterminatedPayload ∧
          0 < braceDepth .outside (block input).text) := by
  have hpasses : ∀ passed, passed <+: scanned 0 .outside input →
      0 < braceDepth .outside ('\x7b' :: passed) := by
    intro passed hpassed
    have hdepth := braceDepth_of_scanned hpassed
    rw [braceDepth_cons_brace]
    omega
  rw [block]
  cases hbody : blockBody 0 .outside input with
  | none =>
    have hscanned : scanned 0 .outside input = input := by rw [scanned, hbody]; rfl
    rw [hscanned] at hpasses
    refine ⟨fun passed hpassed hne _ => ?_, .inr ⟨rfl, hpasses input (List.prefix_refl _)⟩⟩
    rcases List.prefix_cons_iff.1 hpassed with rfl | ⟨inside, rfl, hinside⟩
    · exact absurd rfl hne
    · exact hpasses inside hinside
  | some found =>
    obtain ⟨inner, rest⟩ := found
    have hscanned : scanned 0 .outside input = inner := by rw [scanned, hbody]; rfl
    rw [hscanned] at hpasses
    refine ⟨fun passed hpassed hne hwhole => ?_, .inl ⟨⟨_, rfl⟩, ?_⟩⟩
    · rcases List.prefix_concat_iff.1 hpassed with hwhole' | hpassed
      · exact absurd hwhole' hwhole
      · rcases List.prefix_cons_iff.1 hpassed with rfl | ⟨inside, rfl, hinside⟩
        · exact absurd rfl hne
        · exact hpasses inside hinside
    · have hdepth := braceDepth_of_blockBody hbody
      show braceDepth .outside ('\x7b' :: (inner ++ ['\x7d'])) = 0
      rw [braceDepth_cons_brace]
      omega

end CallGraph
