import CallGraph.Proofs.Graph.Stages

/-!
# Looking up the calls of a node

The edges of a graph are ordered by source first, so the calls of a node lie between two boundaries, and
searches that look at a few edges only can find these.

* `Partitioned`, `Boundary` — where elements with a property come first, and how many they are;
* `bisect`, `findsBoundary_bisect` — a search for the boundary, which halves the list each time;
* `Graph.lookup` — the calls of a node by two such searches;
* `Ascending.partitioned_before`, `Ascending.partitioned_source` — both boundaries are there, whether the
  node is declared or not;
* `Graph.WellFormed.lookup_eq` — so **every search finds the calls** that a scan of all edges finds;
* `Graph.lookup_scans` — this is so in every graph, and the stages of the node are a partition of the calls.
-/

namespace CallGraph

/-! ### Boundaries -/

section

variable {α : Type} {p : α → Bool} {l front behind : List α} {a : α} {i : Nat}

/-- The elements with the property come before those without it. -/
def Partitioned (p : α → Bool) (l : List α) : Prop := l.Pairwise fun a b => p b = true → p a = true

/-- So many elements at the front have the property, and the others do not. -/
structure Boundary (p : α → Bool) (l : List α) (i : Nat) : Prop where
  /-- There are so many elements. -/
  le_length : i ≤ l.length
  /-- Those before the boundary have the property. -/
  before : ∀ a ∈ l.take i, p a = true
  /-- Those behind it do not. -/
  behind : ∀ a ∈ l.drop i, p a = false

/-- The search finds the boundary of every list that has one. -/
def FindsBoundary (search : (α → Bool) → List α → Nat) : Prop :=
  ∀ p l, Partitioned p l → Boundary p l (search p l)

/-- A boundary parts the elements with the property from the others. -/
theorem Boundary.take_eq (h : Boundary p l i) : l.take i = l.filter p := by
  have hsplit := congrArg (List.filter p) (List.take_append_drop i l)
  have hbehind : (l.drop i).filter p = [] :=
    List.filter_eq_nil_iff.2 fun a ha => Bool.eq_false_iff.1 (h.behind a ha)
  rw [List.filter_append, List.filter_eq_self.2 h.before, hbehind, List.append_nil] at hsplit
  exact hsplit

theorem Boundary.drop_eq (h : Boundary p l i) : l.drop i = l.filter fun a => !p a := by
  have hsplit := congrArg (List.filter fun a => !p a) (List.take_append_drop i l)
  have hbefore : (l.take i).filter (fun a => !p a) = [] :=
    List.filter_eq_nil_iff.2 fun a ha => by rw [h.before a ha]; decide
  have hbehind : (l.drop i).filter (fun a => !p a) = l.drop i :=
    List.filter_eq_self.2 fun a ha => by rw [h.behind a ha]; rfl
  rw [List.filter_append, hbefore, hbehind, List.nil_append] at hsplit
  exact hsplit

/-- Behind an element with the property the search goes on behind it. -/
theorem Partitioned.boundary_behind (h : Partitioned p (front ++ a :: behind)) (ha : p a = true)
    (hi : Boundary p behind i) : Boundary p (front ++ a :: behind) (front.length + 1 + i) := by
  have hfront : ∀ b ∈ front, p b = true := fun b hb =>
    (List.pairwise_append.1 h).2.2 b hb a List.mem_cons_self ha
  have hindex : front.length + 1 + i = front.length + (i + 1) := by omega
  rw [hindex]
  refine ⟨?_, ?_, ?_⟩
  · have hle := hi.le_length
    rw [List.length_append, List.length_cons]
    omega
  · rw [List.take_length_add_append, List.take_succ_cons]
    exact List.forall_mem_append.2 ⟨hfront, List.forall_mem_cons.2 ⟨ha, hi.before⟩⟩
  · rw [List.drop_length_add_append, List.drop_succ_cons]
    exact hi.behind

/-- Before an element without the property the search goes on before it. -/
theorem Partitioned.boundary_before (h : Partitioned p (front ++ a :: behind)) (ha : p a = false)
    (hi : Boundary p front i) : Boundary p (front ++ a :: behind) i := by
  have hbehind : ∀ b ∈ behind, p b = false := fun b hb => by
    cases hb' : p b with
    | false => rfl
    | true =>
      have htrue := (List.pairwise_cons.1 (List.pairwise_append.1 h).2.1).1 b hb hb'
      exact absurd htrue (Bool.eq_false_iff.1 ha)
  refine ⟨?_, ?_, ?_⟩
  · rw [List.length_append]
    exact Nat.le_add_right_of_le hi.le_length
  · rw [List.take_append_of_le_length hi.le_length]
    exact hi.before
  · rw [List.drop_append_of_le_length hi.le_length]
    exact List.forall_mem_append.2 ⟨hi.behind, List.forall_mem_cons.2 ⟨ha, hbehind⟩⟩

/-- The number of elements with the property, found by looking at the one in the middle: the boundary is
behind it if it has the property, and else before it. -/
def bisect (p : α → Bool) (l : List α) : Nat :=
  if h : l.length = 0 then 0
  else
    if p (l.get ⟨l.length / 2, Nat.div_lt_self (Nat.pos_of_ne_zero h) (by decide)⟩) then
      l.length / 2 + 1 + bisect p (l.drop (l.length / 2 + 1))
    else bisect p (l.take (l.length / 2))
termination_by l.length
decreasing_by
  · rw [List.length_drop]
    omega
  · rw [List.length_take]
    omega

/-- **Halving finds the boundary.** -/
theorem findsBoundary_bisect : FindsBoundary (bisect (α := α)) := by
  intro p l h
  have hsplit : ∀ {l : List α} (hempty : ¬l.length = 0), l.take (l.length / 2) ++
      l.get ⟨l.length / 2, Nat.div_lt_self (Nat.pos_of_ne_zero hempty) (by decide)⟩ ::
        l.drop (l.length / 2 + 1) = l := by
    intro l hempty
    rw [List.get_eq_getElem, List.getElem_cons_drop, List.take_append_drop]
  fun_induction bisect p l with
  | case1 l hempty =>
    rw [List.length_eq_zero_iff.1 hempty]
    exact ⟨Nat.le_refl 0, List.forall_mem_nil _, List.forall_mem_nil _⟩
  | case2 l hempty hmiddle ih =>
    have hlength : (l.take (l.length / 2)).length = l.length / 2 := by
      rw [List.length_take]
      omega
    rw [← hsplit hempty] at h
    have hboundary := h.boundary_behind hmiddle (ih (List.pairwise_append.1 h).2.1.of_cons)
    rwa [hlength, hsplit hempty] at hboundary
  | case3 l hempty hmiddle ih =>
    rw [← hsplit hempty] at h
    have hboundary := h.boundary_before (Bool.eq_false_iff.2 hmiddle) (ih (List.pairwise_append.1 h).1)
    rwa [hsplit hempty] at hboundary

end

/-! ### Searching for the calls of a node -/

/-- The calls of a node among edges in canonical order: one search for where they begin, and one among
the edges from there on for where they end. -/
def Graph.lookup (search : (Edge → Bool) → List Edge → Nat) (g : Graph) (name : String) : List Edge :=
  let onward := g.edges.drop (search (fun e => e.source < name) g.edges)
  onward.take (search (fun e => e.source = name) onward)

namespace Ascending

variable {edges : List Edge}

/-- The edges of smaller sources come first. -/
theorem partitioned_before (h : Ascending edges) (name : String) :
    Partitioned (fun e => e.source < name) edges := by
  refine List.Pairwise.imp (fun {a b} hab hb => ?_) h
  exact decide_eq_true (Std.lt_of_le_of_lt (Edge.not_source_lt hab) (of_decide_eq_true hb))

/-- Of the other edges those of the source come first. -/
theorem partitioned_source (h : Ascending edges) {name : String}
    (honward : ∀ e ∈ edges, ¬e.source < name) : Partitioned (fun e => e.source = name) edges := by
  refine List.Pairwise.imp_of_mem (fun {a b} ha _ hab hb => ?_) h
  obtain rfl : b.source = name := of_decide_eq_true hb
  exact decide_eq_true (String.le_antisymm (Edge.not_source_lt hab) (honward a ha))

end Ascending

namespace Graph

/-- **Every search finds the calls**, in their order, and none if the node has no calls or is not
declared. -/
theorem WellFormed.lookup_eq {g : Graph} (h : g.WellFormed)
    {search : (Edge → Bool) → List Edge → Nat} (hsearch : FindsBoundary search) (name : String) :
    g.lookup search name = g.edges.filter fun e => e.source = name := by
  have honward := (hsearch _ _ (h.ascending.partitioned_before name)).drop_eq
  have hbehind : ∀ e ∈ g.edges.filter (fun e => !decide (e.source < name)), ¬e.source < name := by
    intro e he
    simpa using (List.mem_filter.1 he).2
  have hcalls := (hsearch _ _ (Ascending.partitioned_source
    (List.Pairwise.filter _ h.ascending) hbehind)).take_eq
  unfold lookup
  dsimp only
  rw [honward, hcalls, List.filter_filter]
  refine List.filter_congr fun e _ => ?_
  by_cases hsource : e.source = name
  · simp [hsource]
  · simp [hsource]

/-- **The calls of a node** in a graph that any operations have built, for every name, declared or not.

* They are the edges with this source, in the order in which they stand among all edges, whether all edges
  are looked at one after the other or two boundaries are searched for, by halving or in any other way.
* The stages of the node are ascending, each with a number of one or more.  None is without calls, and
  each has exactly the calls with its number, in canonical order.  Together they have all calls, each once. -/
theorem lookup_scans (changes : List Change) (name : String) :
    let g := built changes
    let calls := g.edges.filter fun e => e.source = name
    let stages := g.stages name
    (g.edgesFrom name = calls ∧ g.lookup bisect name = calls ∧
      ∀ search, FindsBoundary search → g.lookup search name = calls) ∧
    stages.Pairwise (fun s t => s.sequence < t.sequence) ∧
    (∀ s ∈ stages, 1 ≤ s.sequence ∧ s.calls ≠ [] ∧ Ascending s.calls ∧
      s.calls = (g.edgesFrom name).filter fun e => e.details.sequence = s.sequence) ∧
    (stages.flatMap CallStage.calls).Perm (g.edgesFrom name) := by
  intro g calls stages
  have h : g.WellFormed := wellFormed_built changes
  have hstaged : Staged (g.edgesFrom name) stages := staged_group (g.edgesFrom name)
  refine ⟨⟨h.edgesFrom_eq name, h.lookup_eq findsBoundary_bisect name,
    fun search hsearch => h.lookup_eq hsearch name⟩, hstaged.ascending, fun s hs => ?_, hstaged.perm⟩
  have hcalls := hstaged.calls_eq s hs
  refine ⟨?_, hstaged.inhabited s hs, ?_, hcalls⟩
  · obtain ⟨e, he⟩ := List.exists_mem_of_ne_nil _ (hstaged.inhabited s hs)
    rw [← ((hstaged.mem_calls hs).1 he).2]
    exact e.details.sequence_pos
  · rw [hcalls, h.edgesFrom_eq]
    exact List.Pairwise.filter _ (List.Pairwise.filter _ h.ascending)

end Graph

end CallGraph
