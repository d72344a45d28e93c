import CallGraph.Proofs.Graph.Dot
import CallGraph.Proofs.Unit.Reading

/-!
# Names in a unit, and its text in DOT

The nodes of a unit and the keys of their attributes are called by identifiers of its text, so they are
written in DOT as they are.  Only values and kinds are any texts.

* `Dictionary.mem_keys_ofList` — the keys of a dictionary are those of the pairs that it is made of;
* `named_ofText` — **the nodes of a unit** are called by names;
* `dot_read_iff` — **a unit in DOT** is read back as it was written, unless a backslash in the kind of an edge
  or in the value of an attribute acts on what stands behind it.
-/

namespace CallGraph

theorem Dictionary.mem_keys_insert {α : Type} {d : Dictionary α} {key other : String} {v : α}
    (h : key ∈ (d.insert other v).keys) : key ∈ d.keys ∨ key = other := by
  rw [keys_insert] at h
  split at h
  · exact .inl h
  · simpa using h

/-- A key of a dictionary is one of the pairs that it is made of. -/
theorem Dictionary.mem_keys_ofList {α : Type} {pairs : List (String × α)} {key : String}
    (h : key ∈ (ofList pairs).keys) : key ∈ pairs.map Prod.fst := by
  induction pairs using List.reverseRecOn with
  | nil => cases h
  | append_singleton pairs p ih =>
    rw [ofList, List.foldl_concat] at h
    rw [List.map_append, List.map_singleton, List.mem_append, List.mem_singleton]
    exact (mem_keys_insert h).imp_left ih

/-- A node that is declared is called by a name, and so are its attributes. -/
theorem NodeStatement.named_toNode {s : NodeStatement}
    (h : Event.Named (fun name => IsName name.toList) (.node s)) : s.toNode.Named where
  name := h.1
  keys := by
    intro entry hentry
    have hkey := Dictionary.mem_keys_ofList (List.mem_map_of_mem hentry)
    rw [List.map_map, List.mem_map] at hkey
    obtain ⟨a, ha, heq⟩ := hkey
    exact heq ▸ h.2 a ha

/-- **The nodes of a unit** are called by names, if the seeds are. -/
theorem named_ofText (budget : Nat) {scope : Scope} (hseeds : ∀ n ∈ scope.seeds, n.Named) (text : String) :
    ∀ n ∈ (Draft.ofText budget scope text).1.graph.nodes, n.Named := by
  intro n hn
  rw [nodes_ofText] at hn
  rcases List.mem_append.1 ((firsts_sublist _ _).subset hn) with hseed | hdeclared
  · exact hseeds n hseed
  · obtain ⟨event, hevent, hnode⟩ := List.mem_filterMap.1 hdeclared
    have hnamed := named_parse budget scope.start text event hevent
    cases event with
    | node s =>
      obtain rfl := Option.some.inj hnode
      exact NodeStatement.named_toNode hnamed
    | _ => cases hnode

/-- **A unit in DOT** is read back by the rules of Graphviz.

* The strings of the text are those that were written, each up to its own closing quote, if and only if the
  kind of no edge ends with a backslash that escapes what is behind it.
* The label of a node is a record with one field for each attribute, and one with the name behind them, if and
  only if no value of an attribute has a backslash that escapes a bar, a brace, or what is behind the value. -/
theorem dot_read_iff (budget : Nat) (scope : Scope) (hseeds : ∀ n ∈ scope.seeds, n.Named) (text : String) :
    let g := (Draft.ofText budget scope text).1.graph
    (Dot.strings none g.toDot.toList = g.dotStrings ↔
      ∀ e ∈ g.edges, Dot.escapesNext e.kind.toList = false) ∧
    ∀ n ∈ g.nodes,
      (Dot.record (Dot.label n) = some (n.attributes.entries.map Dot.fieldText ++ [n.name.toList]) ↔
        ∀ entry ∈ n.attributes.entries, ¬Dot.Interferes entry.2.display.toList) := by
  intro g
  have hnamed : ∀ n ∈ g.nodes, n.Named := named_ofText budget hseeds text
  exact ⟨Graph.strings_toDot (wellFormed_ofText budget scope text) hnamed, fun n hn => (hnamed n hn).record_label⟩

/-- A bar in a value and a quote in a kind are read back, and so is a backslash that acts on a letter.  The
callee is declared by another unit. -/
theorem dot_read_seeded :
    let scope : Scope := { seeds := [⟨"b", {}, default⟩] }
    let g := (Draft.ofText 16 scope ".a [k = \"x|y\\\\z\"]\na -> b kind = \"h\\\"q\";").1.graph
    (∀ n ∈ scope.seeds, n.Named) ∧ g.edges.map Edge.kind = ["h\"q"] ∧
      Dot.strings none g.toDot.toList = g.dotStrings ∧
      (∀ n ∈ g.nodes,
        Dot.record (Dot.label n) = some (n.attributes.entries.map Dot.fieldText ++ [n.name.toList])) ∧
      g.nodes.map (fun n => n.attributes.entries.map Dot.fieldText) = [[], ["k=x\\|y\\z".toList]] := by
  intro scope g
  have hseeds : ∀ n ∈ scope.seeds, n.Named := by
    intro n hn
    obtain rfl := List.mem_singleton.1 hn
    have hname : IsName ['b'] := ⟨'b', [], rfl, rfl, List.forall_mem_singleton.2 rfl⟩
    exact ⟨hname, List.forall_mem_nil _⟩
  have hkinds : ∀ e ∈ g.edges, Dot.escapesNext e.kind.toList = false := by decide +kernel
  have hvalues : ∀ n ∈ g.nodes, ∀ entry ∈ n.attributes.entries,
      ¬Dot.Interferes entry.2.display.toList := by decide +kernel
  obtain ⟨hstrings, hrecords⟩ := dot_read_iff 16 scope hseeds _
  exact ⟨hseeds, by decide +kernel, hstrings.2 hkinds, fun n hn => (hrecords n hn).2 (hvalues n hn),
    by decide +kernel⟩

/-- A kind that is a backslash takes the closing quote with it, and a value that is one takes the bar. -/
theorem dot_not_read :
    let g := (Draft.ofText 16 {} ".a [k = \"\\\\\"] .b []\na -> b kind = \"\\\\\";").1.graph
    Dot.strings none g.toDot.toList ≠ g.dotStrings ∧
      g.nodes.map (fun n => Dot.record (Dot.label n)) = [some ["k=\\|a".toList], some [['b']]] := by
  decide +kernel

end CallGraph
