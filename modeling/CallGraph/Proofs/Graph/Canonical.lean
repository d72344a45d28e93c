import CallGraph.Proofs.Graph.Growth
import CallGraph.Proofs.Stable

/-!
# Insertion in canonical order

Edges that are inserted one after the other end up in canonical order, whatever the order of the calls,
and of the edges with the same key the first one is kept.

* `Edge.filter_sort`, `Edge.eq_of_filter_key_eq` — the canonical order is told by the edges of each key;
* `Edge.repeats` — the edges that an earlier one duplicates, `firsts_sort` and `repeats_sort` — sorting
  keeps apart what is first of its key and what is not;
* `Graph.insertEdges`, `Graph.refused` — many insertions, and the edges for which they are refused;
* `Graph.Inserted` — what a graph holds behind some insertions, `Inserted.insertEdge` — what the next one
  answers;
* `insertion_sorts` — **one insertion after the other** does what sorting does.
-/

namespace CallGraph

namespace Edge

variable {a b c : Edge} {edges others before : List Edge} {k : String × String × String}

/-! ### The canonical order -/

/-- Whether the first edge may stand before the second. -/
def mayPrecede (a b : Edge) : Bool := a.order b != .gt

theorem sort_eq (edges : List Edge) : sort edges = edges.mergeSort mayPrecede := rfl

theorem mayPrecede_eq (a b : Edge) : a.mayPrecede b = (a.order b).isLE := by
  unfold mayPrecede
  cases a.order b <;> rfl

theorem mayPrecede_trans (a b c : Edge) (hab : a.mayPrecede b = true) (hbc : b.mayPrecede c = true) :
    a.mayPrecede c = true := by
  rw [mayPrecede_eq] at *
  exact Std.TransCmp.isLE_trans hab hbc

theorem mayPrecede_total (a b : Edge) : (a.mayPrecede b || b.mayPrecede a) = true := by
  have hswap : b.order a = (a.order b).swap := Std.OrientedCmp.eq_swap
  rw [mayPrecede_eq, mayPrecede_eq, hswap]
  cases a.order b <;> rfl

/-- Edges that may stand before each other have the same key. -/
theorem key_eq_of_mayPrecede (a b : Edge) (hab : a.mayPrecede b = true)
    (hba : b.mayPrecede a = true) : a.key = b.key := by
  rw [mayPrecede_eq] at *
  exact order_eq_eq.1 (Std.OrientedCmp.isLE_antisymm hab hba)

theorem mayPrecede_of_key_eq (a b : Edge) (h : a.key = b.key) : a.mayPrecede b = true := by
  rw [mayPrecede_eq, order_eq_eq.2 h]
  rfl

theorem duplicates_iff : a.duplicates b = true ↔ a.key = b.key := by
  rw [duplicates, beq_iff_eq, order_eq_eq]

/-- Sorting keeps the edges of each key in order. -/
theorem filter_sort (edges : List Edge) (k : String × String × String) :
    (sort edges).filter (fun e => e.key = k) = edges.filter fun e => e.key = k := by
  rw [sort_eq]
  exact filter_mergeSort mayPrecede_trans mayPrecede_total mayPrecede_of_key_eq edges k

theorem pairwise_sort (edges : List Edge) :
    (sort edges).Pairwise fun a b => a.mayPrecede b = true := by
  rw [sort_eq]
  exact List.pairwise_mergeSort mayPrecede_trans mayPrecede_total edges

/-- **The canonical order** of edges is told by the edges of each key. -/
theorem eq_of_filter_key_eq (h : edges.Pairwise fun a b => a.mayPrecede b = true)
    (h' : others.Pairwise fun a b => a.mayPrecede b = true)
    (hkeys : ∀ k, edges.filter (fun e => e.key = k) = others.filter fun e => e.key = k) :
    edges = others :=
  eq_of_filter_eq key_eq_of_mayPrecede h h' hkeys

/-! ### Duplicates -/

/-- The edges without those that an earlier one duplicates. -/
theorem eraseDupsBy_duplicates (edges : List Edge) :
    edges.eraseDupsBy duplicates = firsts key edges := by
  refine congrArg (List.eraseDupsBy · edges) (funext₂ fun a b => ?_)
  show a.duplicates b = decide (a.key = b.key)
  rw [Bool.eq_iff_iff, duplicates_iff, decide_eq_true_iff]

/-- The edges that one of the edges before them duplicates, where those in `before` come first. -/
def repeatsBehind (before : List Edge) : List Edge → List Edge
  | [] => []
  | e :: rest =>
    if before.any fun f => f.duplicates e then e :: repeatsBehind (before ++ [e]) rest
    else repeatsBehind (before ++ [e]) rest

/-- The edges that an earlier one duplicates, in order. -/
def repeats (edges : List Edge) : List Edge := repeatsBehind [] edges

theorem any_duplicates_iff {e : Edge} :
    (before.any fun f => f.duplicates e) = true ↔ e.key ∈ before.map key := by
  rw [List.any_eq_true, List.mem_map]
  simp only [duplicates_iff]

theorem repeatsBehind_sublist (before edges : List Edge) :
    (repeatsBehind before edges).Sublist edges := by
  induction edges generalizing before with
  | nil => exact List.nil_sublist _
  | cons e rest ih =>
    rw [repeatsBehind]
    split
    · exact (ih _).cons_cons e
    · exact (ih _).cons e

/-- Of each key all edges but the first are repeated, and that one too if it has been there before. -/
theorem filter_repeatsBehind (before edges : List Edge) (k : String × String × String) :
    (repeatsBehind before edges).filter (fun e => e.key = k) =
      if k ∈ before.map key then edges.filter fun e => e.key = k
      else (edges.filter fun e => e.key = k).drop 1 := by
  induction edges generalizing before with
  | nil => rw [repeatsBehind, List.filter_nil, List.drop_nil, ite_self]
  | cons e rest ih =>
    have hrest := ih (before ++ [e])
    simp only [List.map_append, List.map_singleton, List.mem_append, List.mem_singleton] at hrest
    simp only [repeatsBehind, any_duplicates_iff]
    by_cases hk : e.key = k
    · have hcons : ∀ behind, (e :: behind).filter (fun f => f.key = k) =
          e :: behind.filter fun f => f.key = k :=
        fun behind => List.filter_cons_of_pos (decide_eq_true hk)
      rw [if_pos (.inr hk.symm)] at hrest
      rw [hcons, hk]
      split
      · rw [hcons, hrest]
      · exact hrest
    · have hcons : ∀ behind, (e :: behind).filter (fun f => f.key = k) =
          behind.filter fun f => f.key = k :=
        fun behind => List.filter_cons_of_neg (by simpa using hk)
      simp only [show ¬k = e.key from fun heq => hk heq.symm, or_false] at hrest
      rw [hcons, ← hrest]
      split
      · exact hcons _
      · rfl

theorem filter_repeats (edges : List Edge) (k : String × String × String) :
    (repeats edges).filter (fun e => e.key = k) = (edges.filter fun e => e.key = k).drop 1 :=
  filter_repeatsBehind [] edges k

/-- Nothing but the first of each key and the others is there. -/
theorem perm_firsts_repeats (edges : List Edge) :
    (firsts key edges ++ repeats edges).Perm edges := by
  refine List.perm_iff_count.2 fun e => ?_
  have hkept : ∀ l : List Edge, l.count e = (l.filter fun f => f.key = e.key).count e := by
    intro l
    exact (List.count_filter (by simp)).symm
  rw [List.count_append, hkept (firsts key edges), hkept (repeats edges), hkept edges, filter_firsts,
    filter_repeats, ← List.count_append, List.take_append_drop]

/-- **The first of each key** are the same before and behind the sorting. -/
theorem firsts_sort (edges : List Edge) : firsts key (sort edges) = sort (firsts key edges) := by
  refine eq_of_filter_key_eq ((pairwise_sort edges).sublist (firsts_sublist key _))
    (pairwise_sort _) fun k => ?_
  rw [filter_firsts, filter_sort, filter_sort, filter_firsts]

/-- **The others** are the same, too. -/
theorem repeats_sort (edges : List Edge) : repeats (sort edges) = sort (repeats edges) := by
  refine eq_of_filter_key_eq ((pairwise_sort edges).sublist (repeatsBehind_sublist [] _))
    (pairwise_sort _) fun k => ?_
  rw [filter_repeats, filter_sort, filter_sort, filter_repeats]

end Edge

/-- Edges in canonical order are told by what is there. -/
theorem Ascending.eq_of_perm {edges others : List Edge} (h : Ascending edges) (h' : Ascending others)
    (hperm : edges.Perm others) : edges = others := by
  refine hperm.eq_of_pairwise (fun a b _ _ hab hba => ?_) h h'
  rw [Std.OrientedCmp.gt_of_lt hab] at hba
  cases hba

namespace Graph

variable {g base : Graph} {e : Edge} {before edges : List Edge}

/-! ### Many insertions -/

/-- The graph behind the insertions of the edges, some of which may be refused. -/
def insertEdges (g : Graph) (edges : List Edge) : Graph :=
  edges.foldl (fun g e => g.after (.edge e)) g

/-- The edges for which the insertion is refused, where they are inserted one after the other. -/
def refused (g : Graph) : List Edge → List Edge
  | [] => []
  | e :: rest =>
    if (g.insertEdge e).1.isOk then (g.after (.edge e)).refused rest
    else e :: (g.after (.edge e)).refused rest

/-- What a graph holds behind the insertions of the edges in `before` into an empty list. -/
structure Inserted (base : Graph) (before : List Edge) (g : Graph) : Prop where
  /-- The nodes are the same. -/
  nodes_eq : g.nodes = base.nodes
  /-- The settings are the same. -/
  settings_eq : g.settings = base.settings
  /-- The edges are in canonical order. -/
  ascending : Ascending g.edges
  /-- The edges are the first of each key. -/
  perm : g.edges.Perm (firsts Edge.key before)

theorem inserted_nil (base : Graph) : Inserted base [] { base with edges := [] } :=
  ⟨rfl, rfl, List.Pairwise.nil, List.Perm.nil⟩

/-- **What the next insertion answers.**  It is refused for the first edge of its key, if there has been
one before, and the edge is taken otherwise. -/
theorem Inserted.insertEdge (h : Inserted base before g)
    (hends : e.source ∈ base.names ∧ e.target ∈ base.names) :
    (∃ first, before.find? (fun f => f.duplicates e) = some first ∧
      g.insertEdge e = (.error (.duplicateEdge e.source e.target e.kind first.span), g) ∧
      Inserted base (before ++ [e]) g) ∨
    before.find? (fun f => f.duplicates e) = none ∧
      ∃ g', g.insertEdge e = (.ok (), g') ∧ Inserted base (before ++ [e]) g' := by
  have hnames : g.names = base.names := congrArg (List.map Node.name) h.nodes_eq
  have hdeclared : e.undeclared g.names = [] := by
    rw [hnames]
    exact Edge.undeclared_eq_nil.2 hends
  have hfind : (fun f : Edge => f.duplicates e) = fun f => decide (f.key = e.key) := by
    funext f
    rw [Bool.eq_iff_iff, Edge.duplicates_iff, decide_eq_true_iff]
  rw [hfind]
  cases hfirst : before.find? fun f => f.key = e.key with
  | some first =>
    have hfound := List.find?_some hfirst
    have hkey : first.key = e.key := of_decide_eq_true hfound
    have hmem : first ∈ g.edges := by
      rw [h.perm.mem_iff, mem_firsts_iff, hkey]
      exact hfirst
    refine .inl ⟨first, rfl, insertEdge_duplicate hdeclared h.ascending hmem hkey, ?_⟩
    have hold : e.key ∈ before.map Edge.key :=
      List.mem_map.2 ⟨first, List.mem_of_find?_eq_some hfirst, hkey⟩
    refine ⟨h.nodes_eq, h.settings_eq, h.ascending, ?_⟩
    rw [firsts_concat, if_pos hold]
    exact h.perm
  | none =>
    have hnew : e.key ∉ before.map Edge.key := by
      rw [List.find?_eq_none] at hfirst
      rintro hold
      obtain ⟨f, hf, hkey⟩ := List.mem_map.1 hold
      exact hfirst f hf (decide_eq_true hkey)
    have hkeys : ∀ f ∈ g.edges, f.key ≠ e.key := by
      intro f hf hkey
      rw [← hkey, ← mem_map_firsts] at hnew
      exact hnew (List.mem_map_of_mem (h.perm.mem_iff.1 hf))
    obtain ⟨edges, hinsert, hperm, hascending⟩ := insertEdge_new hdeclared h.ascending hkeys
    refine .inr ⟨rfl, _, hinsert, h.nodes_eq, h.settings_eq, hascending, ?_⟩
    rw [firsts_concat, if_neg hnew]
    exact hperm.trans ((h.perm.cons e).trans (List.perm_append_singleton e _).symm)

theorem Inserted.after (h : Inserted base before g)
    (hends : e.source ∈ base.names ∧ e.target ∈ base.names) :
    Inserted base (before ++ [e]) (g.after (.edge e)) := by
  rcases h.insertEdge hends with ⟨first, -, hinsert, hbehind⟩ | ⟨-, g', hinsert, hbehind⟩
  · rwa [after_of_apply (c := .edge e) hinsert]
  · rwa [after_of_apply (c := .edge e) hinsert]

/-- Many insertions, one after the other. -/
theorem Inserted.insertEdges (h : Inserted base before g)
    (hends : ∀ e ∈ edges, e.source ∈ base.names ∧ e.target ∈ base.names) :
    Inserted base (before ++ edges) (g.insertEdges edges) := by
  induction edges generalizing g before with
  | nil => rwa [List.append_nil]
  | cons e rest ih =>
    obtain ⟨he, hrest⟩ := List.forall_mem_cons.1 hends
    rw [List.append_cons]
    exact ih (h.after he) hrest

/-- The edges for which the insertion is refused are those that an earlier one duplicates. -/
theorem Inserted.refused_eq (h : Inserted base before g)
    (hends : ∀ e ∈ edges, e.source ∈ base.names ∧ e.target ∈ base.names) :
    g.refused edges = Edge.repeatsBehind before edges := by
  induction edges generalizing g before with
  | nil => rfl
  | cons e rest ih =>
    obtain ⟨he, hrest⟩ := List.forall_mem_cons.1 hends
    rw [refused, Edge.repeatsBehind, ih (h.after he) hrest]
    rcases h.insertEdge he with ⟨first, hfirst, hinsert, -⟩ | ⟨hnone, g', hinsert, -⟩
    · have hfound := List.find?_some hfirst
      have hany : (before.any fun f => f.duplicates e) = true :=
        List.any_eq_true.2 ⟨first, List.mem_of_find?_eq_some hfirst, hfound⟩
      rw [hinsert, hany]
      rfl
    · have hany : (before.any fun f => f.duplicates e) = false :=
        List.any_eq_false.2 (List.find?_eq_none.1 hnone)
      rw [hinsert, hany]
      rfl

/-- **The edges** that are left are the first of each key in canonical order. -/
theorem Inserted.edges_eq (h : Inserted base edges g) :
    g.edges = Edge.sort (firsts Edge.key edges) := by
  refine Edge.eq_of_filter_key_eq (h.ascending.imp fun hlt => ?_) (Edge.pairwise_sort _) fun k => ?_
  · rw [Edge.mayPrecede, hlt]
    rfl
  · have hperm := h.perm.filter fun e => e.key = k
    rw [Edge.filter_sort]
    rw [filter_firsts] at hperm ⊢
    -- There is at most one edge of each key.
    cases hkey : edges.filter fun e => e.key = k with
    | nil =>
      rw [hkey] at hperm
      exact hperm.eq_nil
    | cons first others =>
      rw [hkey] at hperm
      exact List.perm_singleton.1 hperm

/-- **One insertion after the other** does what sorting does.  Where edges between declared nodes are
inserted into an empty list of edges:

* what is left are the edges in canonical order without those that an earlier one duplicates, so that of
  each key the first one of the given list is kept, and nothing else changes;
* an insertion is refused exactly if the edge duplicates one before it, and the fault points at the first
  of these; the edges that are refused, put in canonical order, are those that are removed from the sorted
  list, and each edge is either left or refused;
* the order of the calls makes no difference for edges that do not duplicate each other, none of which is
  refused. -/
theorem insertion_sorts (g : Graph) (edges : List Edge)
    (hends : ∀ e ∈ edges, e.source ∈ g.names ∧ e.target ∈ g.names) :
    let empty : Graph := { g with edges := [] }
    (empty.insertEdges edges =
        { g with edges := (Edge.sort edges).eraseDupsBy Edge.duplicates } ∧
      (empty.insertEdges edges).edges = Edge.sort (firsts Edge.key edges)) ∧
    ((∀ before e behind, edges = before ++ e :: behind →
        ∀ fault, ((empty.insertEdges before).insertEdge e).1 = .error fault ↔
          ∃ first, before.find? (fun f => f.duplicates e) = some first ∧
            fault = .duplicateEdge e.source e.target e.kind first.span) ∧
      Edge.sort (empty.refused edges) = Edge.repeats (Edge.sort edges) ∧
      ((empty.insertEdges edges).edges ++ empty.refused edges).Perm edges) ∧
    ((edges.Pairwise fun a b => a.duplicates b = false) →
      empty.refused edges = [] ∧
      ∀ other : List Edge, other.Perm edges →
        (empty.insertEdges other).edges = (empty.insertEdges edges).edges) := by
  intro empty
  have hinserted : ∀ l : List Edge, (∀ e ∈ l, e ∈ edges) → Inserted g l (empty.insertEdges l) :=
    fun l hl => (inserted_nil g).insertEdges fun e he => hends e (hl e he)
  have hall := hinserted edges fun _ he => he
  have hrefused : empty.refused edges = Edge.repeats edges := (inserted_nil g).refused_eq hends
  refine ⟨⟨?_, hall.edges_eq⟩, ⟨fun before e behind hsplit fault => ?_, ?_, ?_⟩, fun hdistinct => ?_⟩
  · have hedges := hall.edges_eq
    rw [← Edge.firsts_sort, ← Edge.eraseDupsBy_duplicates] at hedges
    rw [← hedges, ← hall.nodes_eq, ← hall.settings_eq]
  · subst hsplit
    have hbefore := hinserted before fun _ he => List.mem_append_left _ he
    have he := hends e (List.mem_append_right _ List.mem_cons_self)
    rcases hbefore.insertEdge he with ⟨first, hfirst, hinsert, -⟩ | ⟨hnone, g', hinsert, -⟩
    · rw [hinsert, hfirst, Except.error.injEq]
      simp only [Option.some.injEq, exists_eq_left', eq_comm]
    · rw [hinsert, hnone]
      simp only [reduceCtorEq, false_and, exists_false]
  · rw [hrefused, Edge.repeats_sort]
  · rw [hrefused]
    exact (hall.perm.append_right _).trans (Edge.perm_firsts_repeats edges)
  · have hnodup : (edges.map Edge.key).Nodup := by
      refine List.pairwise_map.2 (hdistinct.imp fun {a b} hfalse hkey => ?_)
      rw [Edge.duplicates_iff.2 hkey] at hfalse
      cases hfalse
    have hnone : (Edge.repeats edges).length = 0 := by
      have hlength := (Edge.perm_firsts_repeats edges).length_eq
      rw [firsts_eq_self hnodup, List.length_append] at hlength
      omega
    refine ⟨hrefused.trans (List.eq_nil_of_length_eq_zero hnone), fun other hother => ?_⟩
    have hbehind := hinserted other fun _ he => hother.mem_iff.1 he
    have hperm := hbehind.perm
    rw [firsts_eq_self ((hother.map Edge.key).nodup_iff.2 hnodup)] at hperm
    have hperm' := hall.perm
    rw [firsts_eq_self hnodup] at hperm'
    exact hbehind.ascending.eq_of_perm hall.ascending ((hperm.trans hother).trans hperm'.symm)

/-- Of three calls that are declared in the wrong order one is a duplicate with another stage. -/
theorem insertion_sorts_duplicate :
    let g : Graph := { nodes := [{ name := "a" }, { name := "b" }] }
    let back : Edge := { source := "b", target := "a" }
    let first : Edge := { source := "a", target := "b" }
    let again : Edge := { first with details := first.details.withSequence 2 }
    let calls := [back, first, again]
    (∀ e ∈ calls, e.source ∈ g.names ∧ e.target ∈ g.names) ∧
      (Edge.sort calls).eraseDupsBy Edge.duplicates = [first, back] ∧
      Edge.repeats (Edge.sort calls) = Edge.sort [again] := by
  intro g back first again calls
  have hends : ∀ e ∈ calls, e.source ∈ g.names ∧ e.target ∈ g.names := by decide
  have hinserted : (Graph.insertEdges { g with edges := [] } calls).edges = [first, back] := by decide
  have hrefused : Graph.refused { g with edges := [] } calls = [again] := by decide
  obtain ⟨⟨hgraph, -⟩, ⟨-, hrepeats, -⟩, -⟩ := insertion_sorts g calls hends
  refine ⟨hends, ?_, ?_⟩
  · rw [← hinserted, hgraph]
  · rw [← hrepeats, hrefused]

end Graph

end CallGraph
