import CallGraph.Proofs.Parser.Move

/-!
# Reductions before a token

Before a token is taken, the parser reduces as long as the tables say so.

* `settle_of_verdict`, `settle_of_reduce` — the computation, one reduction at a time;
* `exists_settles` — **soundness**: the reductions succeed, they keep the word that has been read,
  and they hand over exactly the statements that they complete.
-/

namespace CallGraph

/-! ### One reduction at a time -/

/-- What the tables say where no reduction is left. -/
def Verdict.action : Verdict → Action
  | .shift next => .shift next
  | .accept => .accept
  | .refuse => .refuse

theorem settle_of_verdict {t : Terminal} {stack : List Frame} {verdict : Verdict}
    (here : Location) (h : (topState stack).action t = verdict.action) :
    settle t here stack = ([], .ok (stack, verdict)) := by
  rw [settle]
  cases verdict <;> split <;> rename_i hother <;> rw [h] at hother <;>
    simp_all only [Verdict.action, Action.shift.injEq, reduceCtorEq]

theorem settle_of_reduce {t : Terminal} {here : Location} {stack stack' : List Frame}
    {rule : Rule} {event : Option Event} (h : (topState stack).action t = .reduce rule)
    (hreduce : reduce rule here stack = .ok (stack', event)) :
    settle t here stack =
      (event.toList ++ (settle t here stack').1, (settle t here stack').2) := by
  conv_lhs => rw [settle]
  split <;> rename_i hother <;> rw [h] at hother
  · simp only [reduceCtorEq] at hother
  · simp only [reduceCtorEq] at hother
  · simp only [reduceCtorEq] at hother
  · obtain rfl := Action.reduce.inj hother
    split <;> rename_i hreduce' <;> rw [hreduce] at hreduce'
    · simp only [reduceCtorEq] at hreduce'
    · obtain ⟨rfl, rfl⟩ := Prod.mk.inj (Except.ok.inj hreduce')
      rfl

theorem settle_of_inconsistent {t : Terminal} {here : Location} {stack : List Frame}
    {rule : Rule} {what : Inconsistency} (h : (topState stack).action t = .reduce rule)
    (hreduce : reduce rule here stack = .error what) :
    settle t here stack = ([], .error what) := by
  rw [settle]
  split <;> rename_i hother <;> rw [h] at hother
  · simp only [reduceCtorEq] at hother
  · simp only [reduceCtorEq] at hother
  · simp only [reduceCtorEq] at hother
  · obtain rfl := Action.reduce.inj hother
    split <;> rename_i hreduce' <;> rw [hreduce] at hreduce'
    · rw [Except.error.inj hreduce']
    · simp only [reduceCtorEq] at hreduce'

theorem exists_verdict {s : State} {t : Terminal} (h : ∀ rule, s.action t ≠ .reduce rule) :
    ∃ verdict : Verdict, s.action t = verdict.action := by
  cases haction : s.action t with
  | shift next => exact ⟨.shift next, rfl⟩
  | accept => exact ⟨.accept, rfl⟩
  | refuse => exact ⟨.refuse, rfl⟩
  | reduce rule => exact absurd haction (h rule)

theorem completes_toList (rule : Rule) (contents : Contents rule.rhs) :
    (rule.completes contents).head?.toList = rule.completes contents := by
  cases rule <;> rfl

/-! ### Soundness -/

/-- All reductions before the token `token` lead from `stack` to `stack'`. -/
structure Settles (s : State) (base stack : List Frame) (pieces : List Piece) (token : Token)
    (t : Terminal) (events : List Event) (stack' : List Frame) (pieces' : List Piece)
    (verdict : Verdict) : Prop where
  /-- What the parser computes. -/
  settle_eq : settle t token.span.location stack = (events, .ok (stack', verdict))
  /-- The stack is still built on the same foundation. -/
  stacked : Stacked base stack' pieces'
  /-- No token is taken and none is lost. -/
  word_eq : wordOf pieces' = wordOf pieces
  /-- The statements handed over are the ones that have been completed. -/
  events_eq : eventsOf pieces' = eventsOf pieces ++ events
  /-- No reduction is left. -/
  action_eq : (topState stack').action t = verdict.action
  /-- Nothing below the foundation is asked for. -/
  isOpen : s = .start ∨ 0 < (topState stack').distance
  /-- The reductions are moves. -/
  moves : ∀ rest, Moves ⟨stack, pieces, token :: rest⟩ ⟨stack', pieces', token :: rest⟩

theorem exists_settles {s : State} {base stack : List Frame} {pieces : List Piece}
    {token : Token} {t : Terminal} (hbase : Foundation s base) (h : Stacked base stack pieces)
    (hopen : s = .start ∨ 0 < (topState stack).distance) (ht : token.kind.terminal = .ok t) :
    ∃ events stack' pieces' verdict,
      Settles s base stack pieces token t events stack' pieces' verdict := by
  -- The stack may grow; what falls with each reduction is the rank of the state on top.
  induction hrank : (topState stack).rank using Nat.strongRecOn generalizing stack pieces with
  | ind n ih =>
    by_cases hreduces : ∃ rule, (topState stack).action t = .reduce rule
    · obtain ⟨rule, haction⟩ := hreduces
      -- Within a statement no statement is finished, so nothing below the foundation is popped.
      have hrule : s = .start ∨ rule ≠ .moreStatements := by
        rcases hopen with hstart | hdistance
        · exact Or.inl hstart
        · refine Or.inr fun hmore => ?_
          rw [hmore] at haction
          exact absurd (State.distance_of_moreStatements haction) (Nat.pos_iff_ne_zero.1 hdistance)
      obtain ⟨children, lower, stack₁, rfl, hreduce, hstacked, hdistance⟩ :=
        h.reduce_eq hbase haction hrule token.span.location
      have hlt : (topState stack₁).rank < n := hrank ▸ rank_reduce_lt haction hreduce
      have hopen₁ : s = .start ∨ 0 < (topState stack₁).distance := by
        rcases hopen with hstart | hpos
        · exact Or.inl hstart
        · exact hrule.imp_right fun hmore => (hdistance hmore).symm ▸ hpos
      obtain ⟨events, stack', pieces', verdict, hs⟩ := ih _ hlt hstacked hopen₁ rfl
      refine ⟨rule.completes children.contents ++ events, stack', pieces', verdict, ?_⟩
      have hmove : ∀ rest, Move ⟨stack, children.pieces.reverse ++ lower, token :: rest⟩
          ⟨stack₁, ⟨_, .branch rule children⟩ :: lower, token :: rest⟩ :=
        fun rest => .reduce ht haction hreduce
      exact {
        settle_eq := by
          rw [settle_of_reduce haction hreduce, hs.settle_eq, completes_toList]
        stacked := hs.stacked
        word_eq := hs.word_eq.trans (wordOf_branch rule children lower)
        events_eq := by
          rw [hs.events_eq, eventsOf_branch, List.append_assoc]
        action_eq := hs.action_eq
        isOpen := hs.isOpen
        moves := fun rest => (hs.moves rest).head (hmove rest) }
    · obtain ⟨verdict, hverdict⟩ := exists_verdict (not_exists.1 hreduces)
      exact ⟨[], stack, pieces, verdict, settle_of_verdict _ hverdict, h, rfl,
        (List.append_nil _).symm, hverdict, hopen, fun _ => .refl⟩

end CallGraph
