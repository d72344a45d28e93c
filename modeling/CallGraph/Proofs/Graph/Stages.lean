import Mathlib.Data.List.Perm.Basic
import CallGraph.Graph.Stage
import CallGraph.Proofs.Graph.Relation

/-!
# Calls in stages

The edges of a graph are issued node by node, and those of a node stage by stage.  None is lost on the
way, and none is issued twice.

* `perm_flatMap_filter` — what is sorted by distinct keys is still all there;
* `CallStage.add_cases` — where a call is added to ascending stages;
* `Staged`, `staged_group` — **the stages of calls** are ascending, and each one has the calls with its
  number;
* `Graph.WellFormed.perm_calls` — the stages of all nodes together have the edges of the graph.
-/

namespace CallGraph

/-! ### Keys -/

/-- Elements that are collected by keys of their own are all the elements, if every key is asked for. -/
theorem perm_flatMap_filter {α β κ : Type} [DecidableEq κ] {key : α → κ} {keyOf : β → κ}
    {groups : List β} {items : List α} (hnodup : (groups.map keyOf).Nodup)
    (hcovers : ∀ a ∈ items, key a ∈ groups.map keyOf) :
    (groups.flatMap fun b => items.filter fun a => key a = keyOf b).Perm items := by
  induction groups generalizing items with
  | nil =>
    cases items with
    | nil => exact .nil
    | cons a items => exact absurd (hcovers a List.mem_cons_self) List.not_mem_nil
  | cons b groups ih =>
    obtain ⟨hfirst, hnodup⟩ := List.nodup_cons.1 hnodup
    -- The other groups take nothing from the first one.
    have hothers : (groups.flatMap fun b' => items.filter fun a => key a = keyOf b') =
        groups.flatMap fun b' => (items.filter fun a => !decide (key a = keyOf b)).filter
          fun a => key a = keyOf b' := by
      refine List.flatMap_congr fun b' hb' => ?_
      rw [List.filter_filter]
      refine List.filter_congr fun a _ => ?_
      have hne : keyOf b' ≠ keyOf b := fun heq => hfirst (heq ▸ List.mem_map_of_mem hb')
      by_cases hkey : key a = keyOf b'
      · simp [hkey, hne]
      · simp [hkey]
    have hcovered : ∀ a ∈ items.filter (fun a => !decide (key a = keyOf b)),
        key a ∈ groups.map keyOf := by
      intro a ha
      obtain ⟨ha, hne⟩ := List.mem_filter.1 ha
      have hne : key a ≠ keyOf b := by simpa using hne
      exact (List.mem_cons.1 (hcovers a ha)).resolve_left hne
    have hrest := ih hnodup hcovered
    rw [List.flatMap_cons, hothers]
    exact (hrest.append_left _).trans (List.filter_append_perm _ items)

/-! ### Stages -/

namespace CallStage

/-- The stages are in ascending order of their numbers. -/
def Ascending (stages : List CallStage) : Prop :=
  stages.Pairwise fun s t => s.sequence < t.sequence

/-- A call is added behind the calls of its number, which stand in one stage or have none yet, between
the stages of smaller and those of larger numbers. -/
theorem add_cases (e : Edge) {stages : List CallStage} (h : Ascending stages) :
    ∃ before own behind, add e stages = before ++ ⟨e.details.sequence, own ++ [e]⟩ :: behind ∧
      (∀ s ∈ before, s.sequence < e.details.sequence) ∧
      (∀ s ∈ behind, e.details.sequence < s.sequence) ∧
      (own = [] ∧ stages = before ++ behind ∨
        stages = before ++ ⟨e.details.sequence, own⟩ :: behind) := by
  induction h with
  | nil => exact ⟨[], [], [], rfl, List.forall_mem_nil _, List.forall_mem_nil _, .inl ⟨rfl, rfl⟩⟩
  | @cons s rest hrest _ ih =>
    unfold add
    by_cases hlt : e.details.sequence < s.sequence
    · rw [if_pos hlt]
      refine ⟨[], [], s :: rest, rfl, List.forall_mem_nil _, ?_, .inl ⟨rfl, rfl⟩⟩
      exact List.forall_mem_cons.2 ⟨hlt, fun t ht => Nat.lt_trans hlt (hrest t ht)⟩
    rw [if_neg hlt]
    by_cases heq : e.details.sequence = s.sequence
    · rw [if_pos heq, heq]
      exact ⟨[], s.calls, rest, rfl, List.forall_mem_nil _, hrest, .inr rfl⟩
    rw [if_neg heq]
    obtain ⟨before, own, behind, hadd, hbefore, hbehind, hstages⟩ := ih
    refine ⟨s :: before, own, behind, congrArg (s :: ·) hadd,
      List.forall_mem_cons.2 ⟨by omega, hbefore⟩, hbehind, hstages.imp ?_ ?_⟩
    · exact fun hnew => ⟨hnew.1, congrArg (s :: ·) hnew.2⟩
    · exact congrArg (s :: ·)

end CallStage

/-- The stages hold the calls. -/
structure Staged (calls : List Edge) (stages : List CallStage) : Prop where
  /-- They are in ascending order. -/
  ascending : CallStage.Ascending stages
  /-- Each one has the calls with its number, in their order. -/
  calls_eq : ∀ s ∈ stages, s.calls = calls.filter fun e => e.details.sequence = s.sequence
  /-- There is none without calls. -/
  inhabited : ∀ s ∈ stages, s.calls ≠ []
  /-- Each call has one. -/
  covers : ∀ e ∈ calls, e.details.sequence ∈ stages.map CallStage.sequence

namespace Staged

variable {calls : List Edge} {stages : List CallStage}

theorem nil : Staged [] [] where
  ascending := .nil
  calls_eq := List.forall_mem_nil _
  inhabited := List.forall_mem_nil _
  covers := List.forall_mem_nil _

/-- **One more call** joins the stage of its number. -/
theorem add (h : Staged calls stages) (e : Edge) :
    Staged (calls ++ [e]) (CallStage.add e stages) := by
  obtain ⟨before, own, behind, hadd, hbefore, hbehind, hstages⟩ := CallStage.add_cases e h.ascending
  have hothers : (before ++ behind).Sublist stages := by
    rcases hstages with ⟨-, rfl⟩ | rfl
    · exact List.Sublist.refl _
    · exact (List.sublist_cons_self _ _).append_left _
  have hne : ∀ s ∈ before ++ behind, e.details.sequence ≠ s.sequence := by
    refine List.forall_mem_append.2 ⟨fun s hs => ?_, fun s hs => ?_⟩
    · exact Nat.ne_of_gt (hbefore s hs)
    · exact Nat.ne_of_lt (hbehind s hs)
  have hown : own = calls.filter fun f => f.details.sequence = e.details.sequence := by
    rcases hstages with ⟨rfl, rfl⟩ | rfl
    · -- No call had this number before.
      refine (List.filter_eq_nil_iff.2 fun f hf heq => ?_).symm
      obtain ⟨s, hs, hnumber⟩ := List.mem_map.1 (h.covers f hf)
      exact hne s hs ((of_decide_eq_true heq).symm.trans hnumber.symm)
    · exact h.calls_eq _ (List.mem_append_right _ List.mem_cons_self)
  rw [hadd]
  refine ⟨?_, fun s hs => ?_, fun s hs => ?_, fun f hf => ?_⟩
  · have hparts := List.pairwise_append.1 (List.Pairwise.sublist hothers h.ascending)
    refine List.pairwise_append.2 ⟨hparts.1, List.pairwise_cons.2 ⟨hbehind, hparts.2.1⟩, ?_⟩
    exact fun s hs => List.forall_mem_cons.2 ⟨hbefore s hs, hparts.2.2 s hs⟩
  · rw [List.filter_append, List.filter_singleton]
    rcases List.mem_cons.1 (List.perm_middle.mem_iff.1 hs) with rfl | hs
    · rw [← hown, decide_eq_true rfl]
      rfl
    · rw [decide_eq_false (hne s hs), h.calls_eq s (hothers.subset hs)]
      exact (List.append_nil _).symm
  · rcases List.mem_cons.1 (List.perm_middle.mem_iff.1 hs) with rfl | hs
    · exact List.append_ne_nil_of_right_ne_nil _ (List.cons_ne_nil e [])
    · exact h.inhabited s (hothers.subset hs)
  · rw [List.map_append, List.map_cons, List.perm_middle.mem_iff, ← List.map_append, List.mem_cons]
    rcases List.mem_append.1 hf with hf | hf
    · have hnumber := h.covers f hf
      rcases hstages with ⟨-, rfl⟩ | rfl
      · exact .inr hnumber
      · rwa [List.map_append, List.map_cons, List.perm_middle.mem_iff, ← List.map_append,
          List.mem_cons] at hnumber
    · exact .inl (congrArg (fun f : Edge => f.details.sequence) (List.mem_singleton.1 hf))

/-- No call is lost in its stage, and none is in two of them. -/
theorem perm (h : Staged calls stages) : (stages.flatMap CallStage.calls).Perm calls := by
  have hnodup : (stages.map CallStage.sequence).Nodup :=
    List.pairwise_map.2 (h.ascending.imp Nat.ne_of_lt)
  rw [List.flatMap_congr h.calls_eq]
  exact perm_flatMap_filter hnodup h.covers

/-- The calls of a stage are calls with its number. -/
theorem mem_calls (h : Staged calls stages) {s : CallStage} (hs : s ∈ stages) {e : Edge} :
    e ∈ s.calls ↔ e ∈ calls ∧ e.details.sequence = s.sequence := by
  rw [h.calls_eq s hs, List.mem_filter, decide_eq_true_eq]

end Staged

/-- **The stages of calls**: ascending, each with the calls of its number. -/
theorem staged_group (calls : List Edge) : Staged calls (CallStage.group calls) := by
  induction calls using List.reverseRecOn with
  | nil => exact .nil
  | append_singleton calls e ih =>
    unfold CallStage.group
    rw [List.foldl_append]
    exact ih.add e

namespace Graph

/-- **The edges of a graph** are issued node by node, in any order of the nodes. -/
theorem WellFormed.perm_calls {g : Graph} (h : g.WellFormed) {order : List Node}
    (horder : order.Perm g.nodes) :
    (order.flatMap fun n => (g.stages n.name).flatMap CallStage.calls).Perm g.edges := by
  have hnodup : (order.map Node.name).Nodup := (horder.map Node.name).nodup_iff.2 h.names_nodup
  have hstages : (order.flatMap fun n => (g.stages n.name).flatMap CallStage.calls).Perm
      (order.flatMap fun n => g.edges.filter fun e => e.source = n.name) := by
    refine List.Perm.flatMap_left order fun n _ => ?_
    rw [← h.edgesFrom_eq]
    exact (staged_group (g.edgesFrom n.name)).perm
  refine hstages.trans (perm_flatMap_filter hnodup fun e he => ?_)
  exact (horder.map Node.name).mem_iff.2 (h.source_mem he)

end Graph

end CallGraph
