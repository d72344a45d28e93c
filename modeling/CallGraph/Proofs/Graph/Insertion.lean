import CallGraph.Graph.Basic
import CallGraph.Proofs.Graph.Firsts

/-!
# Insertion into a graph

What the operations of a graph do is told by names and keys alone.

* `Edge.order_eq_eq` — edges compare equal precisely when they have the same key;
* `insertOrdered_error`, `insertOrdered_ok` — an edge is refused if its key is taken, and otherwise
  goes to its place;
* `Graph.missingEnds_eq`, `Graph.insertEdge_duplicate`, `Graph.insertEdge_new` — the three ways of
  an edge;
* `Graph.nodes_insertNode` — a node goes last if its name is new, so that the first one is kept.
-/

namespace CallGraph

/-! ### The order of edges -/

namespace Edge

instance : Std.TransCmp order :=
  inferInstanceAs (Std.TransCmp
    (compareLex (compareLex (compareOn source) (compareOn target)) (compareOn kind)))

/-- Edges compare equal precisely when they have the same key. -/
theorem order_eq_eq {a b : Edge} : a.order b = .eq ↔ a.key = b.key := by
  simp only [order, key, Ordering.then_eq_eq, Std.compare_eq_iff_eq, Prod.mk.injEq, and_assoc]

/-- The order looks at the keys only. -/
theorem order_congr {a b : Edge} (h : a.key = b.key) (c : Edge) : a.order c = b.order c := by
  obtain ⟨hsource, htarget, hkind⟩ : a.source = b.source ∧ a.target = b.target ∧ a.kind = b.kind := by
    simpa only [key, Prod.mk.injEq] using h
  rw [order, order, hsource, htarget, hkind]

/-- The ends of the edge, the source first, each name once. -/
def ends (e : Edge) : List String :=
  if e.source = e.target then [e.source] else [e.source, e.target]

/-- The ends of the edge that are none of the names. -/
def undeclared (names : List String) (e : Edge) : List String :=
  e.ends.filter fun name => name ∉ names

theorem undeclared_eq_nil {names : List String} {e : Edge} :
    e.undeclared names = [] ↔ e.source ∈ names ∧ e.target ∈ names := by
  unfold undeclared ends
  by_cases h : e.source = e.target
  · rw [if_pos h, ← h]
    simp
  · rw [if_neg h]
    simp

/-- Edges with the same key have the same ends. -/
theorem undeclared_congr {a b : Edge} (h : a.key = b.key) (names : List String) :
    a.undeclared names = b.undeclared names := by
  obtain ⟨hsource, htarget, -⟩ : a.source = b.source ∧ a.target = b.target ∧ a.kind = b.kind := by
    simpa only [key, Prod.mk.injEq] using h
  rw [undeclared, undeclared, ends, ends, hsource, htarget]

/-- It does not matter in which order or how often names are listed. -/
theorem undeclared_congr_names {names names' : List String}
    (h : ∀ name, name ∈ names ↔ name ∈ names') (e : Edge) :
    e.undeclared names = e.undeclared names' := by
  unfold undeclared
  apply List.filter_congr
  intro name _
  simp only [h name]

end Edge

/-! ### Inserting in order -/

/-- The edges are in canonical order, without duplicates. -/
def Ascending (edges : List Edge) : Prop := edges.Pairwise fun a b => a.order b = .lt

section

variable {e f : Edge} {edges : List Edge}

/-- An edge whose key is taken is refused. -/
theorem insertOrdered_error (h : Ascending edges) (hf : f ∈ edges) (hkey : f.key = e.key) :
    insertOrdered e edges = .error f := by
  induction edges with
  | nil => exact absurd hf List.not_mem_nil
  | cons g rest ih =>
    obtain ⟨hg, hrest⟩ := List.pairwise_cons.1 h
    rw [insertOrdered]
    rcases List.mem_cons.1 hf with rfl | hf
    · rw [Edge.order_eq_eq.2 hkey.symm]
    · have hgt : e.order g = .gt := by
        rw [← Edge.order_congr hkey, Std.OrientedCmp.gt_iff_lt]
        exact hg f hf
      rw [hgt]
      simp only
      rw [ih hrest hf]
      rfl

/-- In ascending edges a key stands for one edge. -/
theorem Ascending.eq_of_key (h : Ascending edges) (he : e ∈ edges) (hf : f ∈ edges)
    (hkey : f.key = e.key) : f = e := by
  have herror := insertOrdered_error h he rfl
  rw [insertOrdered_error h hf hkey] at herror
  exact Except.error.inj herror

/-- An edge with a new key goes to its place. -/
theorem insertOrdered_ok (h : Ascending edges) (hnew : ∀ f ∈ edges, f.key ≠ e.key) :
    ∃ edges', insertOrdered e edges = .ok edges' ∧ edges'.Perm (e :: edges) ∧ Ascending edges' := by
  induction edges with
  | nil => exact ⟨[e], rfl, .refl _, List.pairwise_singleton _ _⟩
  | cons g rest ih =>
    obtain ⟨hg, hrest⟩ := List.pairwise_cons.1 h
    rw [insertOrdered]
    cases horder : e.order g with
    | lt =>
      refine ⟨e :: g :: rest, rfl, .refl _, List.pairwise_cons.2 ⟨fun f hf => ?_, h⟩⟩
      rcases List.mem_cons.1 hf with rfl | hf
      · exact horder
      · exact Std.TransCmp.lt_trans horder (hg f hf)
    | eq => exact absurd (Edge.order_eq_eq.1 horder).symm (hnew g List.mem_cons_self)
    | gt =>
      obtain ⟨edges', hinsert, hperm, hascending⟩ :=
        ih hrest fun f hf => hnew f (List.mem_cons_of_mem _ hf)
      refine ⟨g :: edges', ?_, ?_, List.pairwise_cons.2 ⟨fun f hf => ?_, hascending⟩⟩
      · rw [hinsert]
        rfl
      · exact (hperm.cons g).trans (.swap e g rest)
      · rcases List.mem_cons.1 (hperm.mem_iff.1 hf) with rfl | hf
        · exact Std.OrientedCmp.gt_iff_lt.1 horder
        · exact hg f hf

end

/-! ### Inserting into a graph -/

namespace Graph

variable {g : Graph} {e f : Edge}

/-- The names of the nodes. -/
def names (g : Graph) : List String := g.nodes.map Node.name

theorem contains_iff {name : String} : g.contains name = true ↔ name ∈ g.names := by
  unfold contains node? names
  rw [List.find?_isSome, List.mem_map]
  simp only [decide_eq_true_eq]

/-- The missing ends are those that no node is named. -/
theorem missingEnds_eq (g : Graph) (e : Edge) : g.missingEnds e = e.undeclared g.names := by
  have hnames : (fun name => !g.contains name) = fun name => decide (name ∉ g.names) := by
    funext name
    by_cases h : name ∈ g.names
    · simp only [contains_iff.2 h, h, not_true, decide_false, Bool.not_true]
    · have hcontains : g.contains name = false := Bool.eq_false_iff.2 fun h' => h (contains_iff.1 h')
      simp only [hcontains, h, not_false_eq_true, decide_true, Bool.not_false]
  unfold missingEnds Edge.undeclared Edge.ends
  rw [hnames]

theorem insertEdge_duplicate (hends : e.undeclared g.names = []) (h : Ascending g.edges)
    (hf : f ∈ g.edges) (hkey : f.key = e.key) :
    g.insertEdge e = (.error (.duplicateEdge e.source e.target e.kind f.span), g) := by
  rw [insertEdge, missingEnds_eq, hends]
  simp only
  rw [insertOrdered_error h hf hkey]

theorem insertEdge_new (hends : e.undeclared g.names = []) (h : Ascending g.edges)
    (hnew : ∀ f ∈ g.edges, f.key ≠ e.key) :
    ∃ edges, g.insertEdge e = (.ok (), { g with edges }) ∧ edges.Perm (e :: g.edges) ∧
      Ascending edges := by
  obtain ⟨edges, hinsert, hperm, hascending⟩ := insertOrdered_ok h hnew
  refine ⟨edges, ?_, hperm, hascending⟩
  rw [insertEdge, missingEnds_eq, hends]
  simp only
  rw [hinsert]

/-- An edge is refused, or changes the edges only. -/
theorem insertEdge_cases (g : Graph) (e : Edge) :
    (∃ fault, g.insertEdge e = (.error fault, g)) ∨
      ∃ edges, g.insertEdge e = (.ok (), { g with edges }) := by
  unfold insertEdge
  cases g.missingEnds e with
  | cons name rest => exact .inl ⟨_, rfl⟩
  | nil =>
    cases insertOrdered e g.edges with
    | error first => exact .inl ⟨_, rfl⟩
    | ok edges => exact .inr ⟨edges, rfl⟩

/-- A node whose name is new goes last, and any other is refused. -/
theorem insertNode_cases (g : Graph) (n : Node) :
    (n.name ∉ g.names ∧ g.insertNode n = (.ok (), { g with nodes := g.nodes ++ [n] })) ∨
      (n.name ∈ g.names ∧
        ∃ first, g.insertNode n = (.error (.duplicateDeclaration n.name first), g)) := by
  unfold insertNode
  cases hnode : g.node? n.name with
  | none =>
    refine Or.inl ⟨fun hmem => ?_, rfl⟩
    rw [← contains_iff, contains, hnode] at hmem
    simp only [Option.isSome_none, Bool.false_eq_true] at hmem
  | some first =>
    refine Or.inr ⟨?_, first.span, rfl⟩
    rw [← contains_iff, contains, hnode]
    rfl

/-- Of the nodes that are inserted one after the other, the first one of each name is kept. -/
theorem nodes_insertNode {nodes : List Node} (n : Node) (h : g.nodes = firsts Node.name nodes) :
    (g.insertNode n).2 = { g with nodes := firsts Node.name (nodes ++ [n]) } := by
  have hnames : n.name ∈ g.names ↔ n.name ∈ nodes.map Node.name := by
    rw [names, h]
    exact mem_map_firsts
  rw [firsts_concat, ← h]
  rcases g.insertNode_cases n with ⟨hnew, hinsert⟩ | ⟨hold, first, hinsert⟩
  · rw [hinsert, if_neg fun hmem => hnew (hnames.2 hmem)]
  · rw [hinsert, if_pos (hnames.1 hold)]

end Graph

end CallGraph
