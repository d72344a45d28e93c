import Mathlib.Logic.Relation
import CallGraph.Graph.Adjacency
import CallGraph.Proofs.Graph.Growth

/-!
# The relation of a graph

A graph is a relation between the names of its nodes, and its adjacency is the same relation between
their numbers.

* `Graph.Calls`, `Adjacency.Leads` — the two relations;
* `Graph.position` — the number of a name;
* `Graph.WellFormed.edgesFrom_eq` — the edges that stand together are all edges of their source;
* `Graph.WellFormed.leads_iff`, `Graph.WellFormed.transGen_leads_iff` — numbers lead to each other
  precisely if their names call each other, directly or by way of others.
-/

namespace CallGraph

open Relation

/-! ### The edges of a source -/

theorem compare_eq_lt_iff {s t : String} : compare s t = .lt ↔ s < t := compareOfLessAndEq_eq_lt

/-- Among ascending edges no source comes before an earlier one. -/
theorem Edge.not_source_lt {a b : Edge} (h : a.order b = .lt) : ¬b.source < a.source := by
  intro hlt
  have hgt : compare a.source b.source = .gt :=
    Std.OrientedCmp.gt_iff_lt.2 (compare_eq_lt_iff.2 hlt)
  rw [order, hgt] at h
  exact Ordering.noConfusion h

theorem dropWhile_of_forall {edges : List Edge} {name : String}
    (h : ∀ e ∈ edges, ¬e.source < name) : (edges.dropWhile fun e => e.source < name) = edges := by
  cases edges with
  | nil => rfl
  | cons e rest => exact List.dropWhile_cons_of_neg (by simpa using h e List.mem_cons_self)

/-- Among ascending edges those of one source stand together. -/
theorem takeWhile_dropWhile_source {edges : List Edge} (h : Ascending edges) (name : String) :
    ((edges.dropWhile fun e => e.source < name).takeWhile fun e => e.source = name) =
      edges.filter fun e => e.source = name := by
  induction edges with
  | nil => rfl
  | cons e rest ih =>
    obtain ⟨he, hrest⟩ := List.pairwise_cons.1 h
    have hbehind : ∀ f ∈ rest, ¬f.source < e.source := fun f hf => Edge.not_source_lt (he f hf)
    cases hcompare : compare e.source name with
    | lt =>
      have hlt : e.source < name := compare_eq_lt_iff.1 hcompare
      have hne : e.source ≠ name := by
        rintro rfl
        exact absurd (Std.compare_eq_iff_eq.2 rfl) (by rw [hcompare]; decide)
      rw [List.dropWhile_cons_of_pos (by simpa using hlt),
        List.filter_cons_of_neg (by simpa using hne), ih hrest]
    | eq =>
      -- Behind an edge of the source nothing is dropped.
      obtain rfl := Std.compare_eq_iff_eq.1 hcompare
      have hgo := ih hrest
      rw [dropWhile_of_forall hbehind] at hgo
      have hall : ∀ f ∈ e :: rest, ¬f.source < e.source := by
        rintro f (_ | ⟨_, hf⟩)
        · exact fun hlt => by rw [compare_eq_lt_iff.2 hlt] at hcompare; cases hcompare
        · exact hbehind f hf
      rw [dropWhile_of_forall hall, List.takeWhile_cons_of_pos (by simp),
        List.filter_cons_of_pos (by simp), hgo]
    | gt =>
      -- Behind an edge of a later source there is no edge of the source.
      have hgt : name < e.source := compare_eq_lt_iff.1 (Std.OrientedCmp.gt_iff_lt.1 hcompare)
      have hhead : ¬e.source < name := fun hlt => by
        rw [compare_eq_lt_iff.2 hlt] at hcompare
        cases hcompare
      have hne : ∀ f ∈ e :: rest, f.source ≠ name := by
        rintro f hf rfl
        rcases List.mem_cons.1 hf with rfl | hf
        · exact hhead hgt
        · exact hbehind f hf hgt
      rw [List.filter_eq_nil_iff.2 (by simpa using hne),
        List.dropWhile_cons_of_neg (by simpa using hhead),
        List.takeWhile_cons_of_neg (by simpa using hne e List.mem_cons_self)]

namespace Graph

theorem WellFormed.edgesFrom_eq {g : Graph} (h : g.WellFormed) (name : String) :
    g.edgesFrom name = g.edges.filter fun e => e.source = name :=
  takeWhile_dropWhile_source h.ascending name

/-! ### Names and numbers -/

/-- The position of a name in a list of nodes. -/
def position (nodes : List Node) (name : String) : Nat := (nodes.map Node.name).idxOf name

/-- There is an edge from the first name to the second. -/
def Calls (g : Graph) (source target : String) : Prop :=
  ∃ e ∈ g.edges, e.source = source ∧ e.target = target

end Graph

/-- There is an edge from the first number to the second. -/
def Adjacency.Leads (a : Adjacency) (i j : Nat) : Prop := j ∈ a.successors i

namespace Graph

section

variable {g : Graph} {name : String} {i j : Nat}

theorem position_lt_iff {nodes : List Node} :
    position nodes name < nodes.length ↔ name ∈ nodes.map Node.name := by
  rw [← List.length_map Node.name]
  exact List.idxOf_lt_length_iff

theorem indexOf?_eq_some :
    g.indexOf? name = some i ↔ name ∈ g.names ∧ position g.nodes name = i := by
  have hposition : g.nodes.findIdx (fun n => n.name = name) = position g.nodes name := by
    unfold position List.idxOf
    rw [List.findIdx_map]
    rfl
  rw [indexOf?, List.findIdx?_eq_some_iff_findIdx_eq, hposition, names, ← position_lt_iff]
  constructor
  · rintro ⟨hlt, rfl⟩
    exact ⟨hlt, rfl⟩
  · rintro ⟨hlt, rfl⟩
    exact ⟨hlt, rfl⟩

theorem nameAt_eq (hi : i < g.nodes.length) : g.nameAt i = g.nodes[i].name := by
  rw [nameAt, List.getElem?_eq_getElem hi]

theorem nameAt_position (h : name ∈ g.names) : g.nameAt (position g.nodes name) = name := by
  have hlt : (g.nodes.map Node.name).idxOf name < (g.nodes.map Node.name).length :=
    List.idxOf_lt_length_iff.2 h
  have hname := List.getElem_idxOf hlt
  rw [List.getElem_map] at hname
  rw [nameAt_eq (position_lt_iff.2 h)]
  exact hname

theorem WellFormed.position_nameAt (h : g.WellFormed) (hi : i < g.nodes.length) :
    position g.nodes (g.nameAt i) = i := by
  rw [nameAt_eq hi, position, ← List.getElem_map Node.name (h := by rwa [List.length_map])]
  exact h.names_nodup.idxOf_getElem i _

/-! ### The same relation -/

theorem size_adjacency (g : Graph) : g.adjacency.size = g.nodes.length :=
  List.length_map _

/-- The edges of a node lead to the numbers of their targets. -/
theorem WellFormed.successors_eq (h : g.WellFormed) (hi : i < g.nodes.length) :
    g.adjacency.successors i =
      (g.edgesFrom (g.nameAt i)).map fun e => position g.nodes e.target := by
  have hrow : g.adjacency.successors i =
      (g.edgesFrom (g.nameAt i)).filterMap fun e => g.indexOf? e.target := by
    rw [Adjacency.successors, adjacency, List.getD_eq_getElem?_getD, List.getElem?_map,
      List.getElem?_eq_getElem hi, nameAt_eq hi]
    rfl
  rw [hrow, ← List.filterMap_eq_map]
  refine List.filterMap_congr fun e he => indexOf?_eq_some.2 ⟨?_, rfl⟩
  rw [h.edgesFrom_eq] at he
  exact h.target_mem (List.mem_filter.1 he).1

/-- **An edge** leads from number to number if it does so from name to name. -/
theorem WellFormed.leads_iff (h : g.WellFormed) :
    g.adjacency.Leads i j ↔
      i < g.nodes.length ∧ j < g.nodes.length ∧ g.Calls (g.nameAt i) (g.nameAt j) := by
  unfold Adjacency.Leads
  by_cases hi : i < g.nodes.length
  · rw [h.successors_eq hi, h.edgesFrom_eq, List.mem_map]
    simp only [List.mem_filter, decide_eq_true_eq, hi, true_and]
    constructor
    · rintro ⟨e, ⟨he, hsource⟩, rfl⟩
      have hmem := h.target_mem he
      exact ⟨position_lt_iff.2 hmem, e, he, hsource, (nameAt_position hmem).symm⟩
    · rintro ⟨hj, e, he, hsource, htarget⟩
      exact ⟨e, ⟨he, hsource⟩, by rw [htarget, h.position_nameAt hj]⟩
  · rw [Adjacency.successors, adjacency, List.getD_eq_getElem?_getD,
      List.getElem?_eq_none (by rw [List.length_map]; omega)]
    exact iff_of_false List.not_mem_nil fun hlt => hi hlt.1

theorem WellFormed.leads_position (h : g.WellFormed) {a b : String} (hcalls : g.Calls a b) :
    g.adjacency.Leads (position g.nodes a) (position g.nodes b) := by
  obtain ⟨e, he, rfl, rfl⟩ := hcalls
  have hsource := h.source_mem he
  have htarget := h.target_mem he
  refine h.leads_iff.2 ⟨position_lt_iff.2 hsource, position_lt_iff.2 htarget, e, he, ?_, ?_⟩
  · exact (nameAt_position hsource).symm
  · exact (nameAt_position htarget).symm

/-- **A path** leads from number to number if it does so from name to name. -/
theorem WellFormed.transGen_leads_iff (h : g.WellFormed) :
    TransGen g.adjacency.Leads i j ↔
      i < g.nodes.length ∧ j < g.nodes.length ∧ TransGen g.Calls (g.nameAt i) (g.nameAt j) := by
  constructor
  · intro hpath
    have hcalls : TransGen g.Calls (g.nameAt i) (g.nameAt j) :=
      TransGen.lift g.nameAt (fun _ _ hleads => (h.leads_iff.1 hleads).2.2) _ _ hpath
    obtain ⟨k, hfirst, -⟩ := TransGen.head'_iff.1 hpath
    obtain ⟨l, -, hlast⟩ := TransGen.tail'_iff.1 hpath
    exact ⟨(h.leads_iff.1 hfirst).1, (h.leads_iff.1 hlast).2.1, hcalls⟩
  · rintro ⟨hi, hj, hpath⟩
    have hleads : TransGen g.adjacency.Leads (position g.nodes (g.nameAt i))
        (position g.nodes (g.nameAt j)) :=
      TransGen.lift (position g.nodes) (fun _ _ => h.leads_position) _ _ hpath
    rwa [h.position_nameAt hi, h.position_nameAt hj] at hleads

end

end Graph

end CallGraph
