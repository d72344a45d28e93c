import Mathlib.Data.List.Nodup
import CallGraph.Proofs.Graph.Insertion

/-!
# Growth of a graph

A graph starts empty and is changed by calls of its operations, some of which are refused.

* `Graph.built` — the graph behind any calls;
* `Graph.WellFormed.after` — each call keeps what the operations maintain, and so do all of them
  (`wellFormed_built`);
* `Graph.nodes_built` — of each name the node inserted first is kept;
* `built_representation` — **the representation**: what every graph satisfies that is built by
  calls, and what the next call answers.
-/

namespace CallGraph

/-- Of two edges one of which precedes the other the keys differ. -/
theorem Edge.key_ne_of_lt {a b : Edge} (h : a.order b = .lt) : a.key ≠ b.key := by
  intro hkey
  rw [Edge.order_eq_eq.2 hkey] at h
  exact Ordering.noConfusion h

/-! ### Calls -/

/-- A call of an operation that changes a graph. -/
inductive Change where
  /-- A node is to be inserted. -/
  | node (n : Node)
  /-- An edge is to be inserted. -/
  | edge (e : Edge)
  /-- A setting is to be bound. -/
  | setting (key : String) (value : Located Value)

namespace Change

/-- What the call answers, and the graph that it leaves. -/
def apply (g : Graph) : Change → Except Fault Unit × Graph
  | node n => g.insertNode n
  | edge e => g.insertEdge e
  | setting key value => (.ok (), (g.assign key value).2)

/-- The node that the call is about. -/
def node? : Change → Option Node
  | node n => some n
  | edge _ => none
  | setting _ _ => none

end Change

namespace Graph

/-- The graph behind a call, which may have been refused. -/
def after (g : Graph) (c : Change) : Graph := (c.apply g).2

/-- The graph that calls build from the empty one, whether they are refused or not. -/
def built (changes : List Change) : Graph := changes.foldl after {}

section

variable {g : Graph} {c : Change} {e f : Edge} {n : Node}

theorem after_of_apply {answer : Except Fault Unit} {g' : Graph} (h : c.apply g = (answer, g')) :
    g.after c = g' :=
  congrArg Prod.snd h

/-- **A call that is refused** leaves the graph as it was. -/
theorem after_of_refused {fault : Fault} (h : (c.apply g).1 = .error fault) : g.after c = g := by
  cases c with
  | node n =>
    rcases g.insertNode_cases n with ⟨-, hinsert⟩ | ⟨-, first, hinsert⟩
    · rw [Change.apply, hinsert] at h
      cases h
    · exact after_of_apply (c := .node n) hinsert
  | edge e =>
    rcases g.insertEdge_cases e with ⟨fault, hinsert⟩ | ⟨edges, hinsert⟩
    · exact after_of_apply (c := .edge e) hinsert
    · rw [Change.apply, hinsert] at h
      cases h
  | setting key value => cases h

theorem built_concat (changes : List Change) (c : Change) :
    built (changes ++ [c]) = (built changes).after c :=
  List.foldl_append

/-! ### What an edge meets -/

/-- The source is looked up first. -/
theorem insertEdge_source (h : e.source ∉ g.names) :
    g.insertEdge e = (.error (.unresolvedReference e.source), g) := by
  have hmissing : ∃ rest, g.missingEnds e = e.source :: rest := by
    rw [missingEnds_eq, Edge.undeclared, Edge.ends]
    by_cases hends : e.source = e.target
    · exact ⟨[], by simp only [if_pos hends, List.filter_cons, h, not_false_eq_true, decide_true,
        if_true, List.filter_nil]⟩
    · exact ⟨_, by rw [if_neg hends, List.filter_cons, if_pos (decide_eq_true h)]⟩
  obtain ⟨rest, hmissing⟩ := hmissing
  rw [insertEdge, hmissing]

theorem insertEdge_target (hsource : e.source ∈ g.names) (h : e.target ∉ g.names) :
    g.insertEdge e = (.error (.unresolvedReference e.target), g) := by
  have hends : e.source ≠ e.target := fun hends => h (hends ▸ hsource)
  have hmissing : g.missingEnds e = [e.target] := by
    rw [missingEnds_eq, Edge.undeclared, Edge.ends, if_neg hends]
    simp only [List.filter_cons, hsource, not_true, decide_false, Bool.false_eq_true, if_false, h,
      not_false_eq_true, decide_true, if_true, List.filter_nil]
  rw [insertEdge, hmissing]

/-! ### Well-formed graphs -/

theorem WellFormed.ascending (h : g.WellFormed) : Ascending g.edges := h.edges_ascending

theorem WellFormed.source_mem (h : g.WellFormed) (he : e ∈ g.edges) : e.source ∈ g.names :=
  contains_iff.1 (h.ends_declared e he).1

theorem WellFormed.target_mem (h : g.WellFormed) (he : e ∈ g.edges) : e.target ∈ g.names :=
  contains_iff.1 (h.ends_declared e he).2

theorem wellFormed_empty : WellFormed {} where
  names_nodup := List.nodup_nil
  edges_ascending := List.Pairwise.nil
  ends_declared := fun _ he => absurd he List.not_mem_nil

/-- A call either changes nothing, or adds a node of a new name, or an edge of a new key between
declared ends, or binds a setting. -/
theorem after_cases (h : g.WellFormed) (c : Change) :
    g.after c = g ∨
      (∃ n, c = .node n ∧ n.name ∉ g.names ∧ g.after c = { g with nodes := g.nodes ++ [n] }) ∨
      (∃ e edges, c = .edge e ∧ e.source ∈ g.names ∧ e.target ∈ g.names ∧
        edges.Perm (e :: g.edges) ∧ Ascending edges ∧ g.after c = { g with edges }) ∨
      ∃ settings, g.after c = { g with settings } := by
  cases c with
  | node n =>
    rcases g.insertNode_cases n with ⟨hnew, hinsert⟩ | ⟨-, first, hinsert⟩
    · exact .inr (.inl ⟨n, rfl, hnew, after_of_apply (c := .node n) hinsert⟩)
    · exact .inl (after_of_apply (c := .node n) hinsert)
  | edge e =>
    by_cases hsource : e.source ∈ g.names
    · by_cases htarget : e.target ∈ g.names
      · have hends := Edge.undeclared_eq_nil.2 ⟨hsource, htarget⟩
        by_cases hkey : ∃ f ∈ g.edges, f.key = e.key
        · obtain ⟨f, hf, hkey⟩ := hkey
          exact .inl (after_of_apply (c := .edge e) (insertEdge_duplicate hends h.ascending hf hkey))
        · have hnew : ∀ f ∈ g.edges, f.key ≠ e.key := fun f hf hk => hkey ⟨f, hf, hk⟩
          obtain ⟨edges, hinsert, hperm, hascending⟩ := insertEdge_new hends h.ascending hnew
          exact .inr (.inr (.inl ⟨e, edges, rfl, hsource, htarget, hperm, hascending,
            after_of_apply (c := .edge e) hinsert⟩))
      · exact .inl (after_of_apply (c := .edge e) (insertEdge_target hsource htarget))
    · exact .inl (after_of_apply (c := .edge e) (insertEdge_source hsource))
  | setting key value => exact .inr (.inr (.inr ⟨_, rfl⟩))

/-- **Each call** keeps a graph well-formed. -/
theorem WellFormed.after (h : g.WellFormed) (c : Change) : (g.after c).WellFormed := by
  rcases after_cases h c with heq | ⟨n, -, hnew, heq⟩ |
    ⟨e, edges, -, hsource, htarget, hperm, hascending, heq⟩ | ⟨settings, heq⟩ <;> rw [heq]
  · exact h
  · have hnames : names { g with nodes := g.nodes ++ [n] } = g.names ++ [n.name] := List.map_append
    exact {
      names_nodup := by
        show (names { g with nodes := g.nodes ++ [n] }).Nodup
        rw [hnames]
        exact List.nodup_append.2 ⟨h.names_nodup, List.pairwise_singleton _ _,
          fun a ha b hb hab => hnew (List.mem_singleton.1 hb ▸ hab ▸ ha)⟩
      edges_ascending := h.edges_ascending
      ends_declared := fun e he => by
        rw [contains_iff, contains_iff, hnames]
        exact ⟨List.mem_append_left _ (h.source_mem he), List.mem_append_left _ (h.target_mem he)⟩ }
  · exact {
      names_nodup := h.names_nodup
      edges_ascending := hascending
      ends_declared := fun f hf => by
        rw [contains_iff, contains_iff]
        rcases List.mem_cons.1 (hperm.mem_iff.1 hf) with rfl | hf
        · exact ⟨hsource, htarget⟩
        · exact ⟨h.source_mem hf, h.target_mem hf⟩ }
  · exact ⟨h.names_nodup, h.edges_ascending, h.ends_declared⟩

/-- **Any calls** build a well-formed graph. -/
theorem wellFormed_built (changes : List Change) : (built changes).WellFormed := by
  induction changes using List.reverseRecOn with
  | nil => exact wellFormed_empty
  | append_singleton changes c ih =>
    rw [built_concat]
    exact ih.after c

/-- **Of each name** the node inserted first is kept, in order of these insertions. -/
theorem nodes_built (changes : List Change) :
    (built changes).nodes = firsts Node.name (changes.filterMap Change.node?) := by
  induction changes using List.reverseRecOn with
  | nil => rfl
  | append_singleton changes c ih =>
    rw [built_concat, List.filterMap_append]
    cases c with
    | node n => exact congrArg Graph.nodes (nodes_insertNode n ih)
    | edge e =>
      have hnodes : ((built changes).after (.edge e)).nodes = (built changes).nodes := by
        rcases after_cases (wellFormed_built changes) (.edge e) with heq | ⟨n, hc, -⟩ |
          ⟨f, edges, -, -, -, -, -, heq⟩ | ⟨settings, heq⟩
        · rw [heq]
        · exact Change.noConfusion hc
        · rw [heq]
        · rw [heq]
      rw [hnodes, ih]
      exact congrArg (firsts Node.name) (List.append_nil _).symm
    | setting key value => exact ih.trans (congrArg (firsts Node.name) (List.append_nil _).symm)

end

/-! ### The representation -/

theorem mem_of_node? {g : Graph} {name : String} {n : Node} (h : g.node? name = some n) :
    n ∈ g.nodes ∧ n.name = name := by
  have hname := List.find?_some h
  exact ⟨List.mem_of_find?_eq_some h, of_decide_eq_true hname⟩

/-- A look-up finds each node under its own name. -/
theorem WellFormed.node?_eq_some {g : Graph} (h : g.WellFormed) {name : String} {n : Node} :
    g.node? name = some n ↔ n ∈ g.nodes ∧ n.name = name := by
  refine ⟨mem_of_node?, ?_⟩
  rintro ⟨hmem, rfl⟩
  have hsome : (g.node? n.name).isSome := contains_iff.2 (List.mem_map_of_mem hmem)
  obtain ⟨m, hm⟩ := Option.isSome_iff_exists.1 hsome
  obtain ⟨hmem', hname⟩ := mem_of_node? hm
  rw [hm, List.inj_on_of_nodup_map h.names_nodup hmem' hmem hname]

/-- A node whose name is taken is refused, and the node of the name is pointed at. -/
theorem WellFormed.insertNode_taken {g : Graph} (h : g.WellFormed) {first n : Node}
    (hfirst : first ∈ g.nodes) (hname : first.name = n.name) :
    g.insertNode n = (.error (.duplicateDeclaration n.name first.span), g) := by
  rw [insertNode, h.node?_eq_some.2 ⟨hfirst, hname⟩]

/-- **The representation of a graph** that any calls have built, refused ones included.

* The names of the nodes are unique, a look-up finds each node under its own name, and the nodes
  stand in the order in which their names were first inserted.
* The edges are strictly ascending, so that no two have the same key, and their ends are declared.
* A call that is refused leaves the graph as it was.
* A node is refused if its name is taken, and otherwise goes last.
* An edge is refused because of its source if that is not declared, else because of its target, and
  else because of the edge that has its key, whose span is reported; otherwise it is inserted. -/
theorem built_representation (changes : List Change) :
    let g := built changes
    (g.names.Nodup ∧ (∀ name n, g.node? name = some n ↔ n ∈ g.nodes ∧ n.name = name) ∧
        g.nodes = firsts Node.name (changes.filterMap Change.node?)) ∧
      (Ascending g.edges ∧ (g.edges.map Edge.key).Nodup ∧
        ∀ e ∈ g.edges, e.source ∈ g.names ∧ e.target ∈ g.names) ∧
      (∀ c fault, (c.apply g).1 = .error fault → built (changes ++ [c]) = g) ∧
      (∀ n, (n.name ∉ g.names → g.insertNode n = (.ok (), { g with nodes := g.nodes ++ [n] })) ∧
        ∀ first ∈ g.nodes, first.name = n.name →
          g.insertNode n = (.error (.duplicateDeclaration n.name first.span), g)) ∧
      ∀ e,
        (e.source ∉ g.names → g.insertEdge e = (.error (.unresolvedReference e.source), g)) ∧
        (e.source ∈ g.names → e.target ∉ g.names →
          g.insertEdge e = (.error (.unresolvedReference e.target), g)) ∧
        (e.source ∈ g.names → e.target ∈ g.names → ∀ f ∈ g.edges, f.key = e.key →
          g.insertEdge e = (.error (.duplicateEdge e.source e.target e.kind f.span), g)) ∧
        (e.source ∈ g.names → e.target ∈ g.names → (∀ f ∈ g.edges, f.key ≠ e.key) →
          ∃ edges, g.insertEdge e = (.ok (), { g with edges }) ∧ edges.Perm (e :: g.edges) ∧
            Ascending edges) := by
  intro g
  have h : g.WellFormed := wellFormed_built changes
  refine ⟨⟨h.names_nodup, fun name n => h.node?_eq_some, nodes_built changes⟩,
    ⟨h.ascending, ?_, fun e he => ⟨h.source_mem he, h.target_mem he⟩⟩, ?_, ?_, ?_⟩
  · exact List.pairwise_map.2 (h.ascending.imp Edge.key_ne_of_lt)
  · intro c fault hfault
    rw [built_concat]
    exact after_of_refused hfault
  · intro n
    refine ⟨fun hnew => ?_, fun first hfirst hname => h.insertNode_taken hfirst hname⟩
    rcases g.insertNode_cases n with ⟨-, hinsert⟩ | ⟨htaken, -⟩
    · exact hinsert
    · exact absurd htaken hnew
  · intro e
    refine ⟨insertEdge_source, insertEdge_target, fun hsource htarget f hf hkey => ?_,
      fun hsource htarget hnew => ?_⟩
    · exact insertEdge_duplicate (Edge.undeclared_eq_nil.2 ⟨hsource, htarget⟩) h.ascending hf hkey
    · exact insertEdge_new (Edge.undeclared_eq_nil.2 ⟨hsource, htarget⟩) h.ascending hnew

end Graph

end CallGraph
