import CallGraph.Proofs.Graph.Insertion
import CallGraph.Unit.Draft

/-!
# What statements declare

What a list of statements declares, read off the list as a whole and not recorded step by step.

* `nodesOf`, `settingsOf` — the nodes and the settings, in order;
* `impliedSource` — the source of an edge that names none: the node declared last before it;
* `attempts` — one attempt for each edge statement, in order: the edge that it declares, or that it
  has no source;
* `fates` — what becomes of each attempt: it is the first one of its key, or a duplicate of the first
  one, or an end of it is declared nowhere, or it has no source.
-/

namespace CallGraph

/-! ### Nodes and settings -/

/-- The node that the statement declares. -/
def NodeStatement.toNode (s : NodeStatement) : Node :=
  ⟨s.name.value, Dictionary.ofList (s.attributes.map fun a => (a.key.value, a.value.value)), s.span⟩

/-- The node that is declared, if it is one. -/
def Event.node? : Event → Option Node
  | .node s => some s.toNode
  | _ => none

/-- The setting that is assigned, if it is one. -/
def Event.setting? : Event → Option Assignment
  | .setting a => some a
  | _ => none

/-- The edge statement, if it is one. -/
def Event.edge? : Event → Option EdgeStatement
  | .edge s => some s
  | _ => none

/-- The nodes declared, in order. -/
def nodesOf (events : List Event) : List Node := events.filterMap Event.node?

/-- The settings assigned, in order. -/
def settingsOf (events : List Event) : List Assignment := events.filterMap Event.setting?

/-- The names that edges can refer to: those of the seeds and of all nodes declared. -/
def namesOf (scope : Scope) (events : List Event) : List String :=
  (scope.seeds ++ nodesOf events).map Node.name

/-! ### Edges -/

/-- The source of an edge that names none: the node declared last, or the origin of the unit. -/
def impliedSource (scope : Scope) (before : List Event) : Option String :=
  ((nodesOf before).getLast?.map Node.name).or scope.origin

/-- How the call of the statement is made. -/
def EdgeStatement.details (s : EdgeStatement) : Details :=
  let options := OptionReading.ofOptions s.options
  match s.payload with
  | some payload => options.details.withPayload payload
  | none => options.details

/-- What an edge statement comes to. -/
inductive Attempt where
  /-- It declares an edge. -/
  | edge (e : Edge)
  /-- It has no source. -/
  | sourceless (s : EdgeStatement)

/-- The edge declared, if there is one. -/
def Attempt.edge? : Attempt → Option Edge
  | .edge e => some e
  | .sourceless _ => none

/-- Where the statement is. -/
def Attempt.span : Attempt → Span
  | .edge e => e.span
  | .sourceless s => s.span

/-- What the statement comes to where the source may be implied. -/
def EdgeStatement.attempt (s : EdgeStatement) (implied : Option String) : Attempt :=
  match (s.source.map Located.value).or implied with
  | some source => .edge ⟨source, s.target.value, s.details, s.span⟩
  | none => .sourceless s

/-- What the event comes to behind the events `before`. -/
def Event.attempts (scope : Scope) (before : List Event) : Event → List Attempt
  | .edge s => [s.attempt (impliedSource scope before)]
  | _ => []

/-- What the edge statements come to, in order. -/
def attemptsBehind (scope : Scope) (before : List Event) : List Event → List Attempt
  | [] => []
  | event :: rest => event.attempts scope before ++ attemptsBehind scope (before ++ [event]) rest

/-- What all edge statements of a unit come to, in order. -/
def attempts (scope : Scope) (events : List Event) : List Attempt := attemptsBehind scope [] events

/-- The edges declared, in order. -/
def edgesOf (attempts : List Attempt) : List Edge := attempts.filterMap Attempt.edge?

/-- The edge that is the first one of the key. -/
def firstOf? (edges : List Edge) (e : Edge) : Option Edge := edges.find? fun f => f.key = e.key

/-! ### Fates -/

/-- What becomes of an edge statement. -/
inductive Fate where
  /-- It is the first one of its key. -/
  | stored (e : Edge)
  /-- It is a duplicate of the first one. -/
  | duplicate (e first : Edge)
  /-- Some of its ends are declared nowhere. -/
  | unresolved (e : Edge) (missing : List String)
  /-- It has no source. -/
  | sourceless (s : EdgeStatement)

namespace Fate

/-- The attempt whose fate it is. -/
def attempt : Fate → Attempt
  | stored e | duplicate e _ | unresolved e _ => .edge e
  | sourceless s => .sourceless s

/-- Where the statement is. -/
def span : Fate → Span
  | stored e | duplicate e _ | unresolved e _ => e.span
  | sourceless s => s.span

/-- What is wrong with the statement. -/
def faults : Fate → List Fault
  | stored _ => []
  | duplicate e first => [.duplicateEdge e.source e.target e.kind first.span]
  | unresolved _ missing => missing.map .unresolvedReference
  | sourceless s => [.missingSource s.target.value]

/-- What is reported about the statement. -/
def findings (fate : Fate) : List Diagnostic :=
  fate.faults.map fun fault => fault.toDiagnostic fate.span

/-- The edge that is stored, if it is. -/
def stored? : Fate → Option Edge
  | stored e => some e
  | _ => none

end Fate

/-- What becomes of an attempt behind the edges `before`, where `names` are all names declared. -/
def Attempt.fate (names : List String) (before : List Edge) : Attempt → Fate
  | .sourceless s => .sourceless s
  | .edge e =>
    if e.undeclared names ≠ [] then .unresolved e (e.undeclared names)
    else
      match firstOf? before e with
      | some first => .duplicate e first
      | none => .stored e

/-- What becomes of the attempts behind the edges `before`. -/
def fates (names : List String) (before : List Edge) : List Attempt → List Fate
  | [] => []
  | a :: rest => a.fate names before :: fates names (before ++ a.edge?.toList) rest

/-! ### One more event -/

theorem nodesOf_concat (events : List Event) (event : Event) :
    nodesOf (events ++ [event]) = nodesOf events ++ event.node?.toList := by
  rw [nodesOf, List.filterMap_append]
  cases event <;> rfl

theorem settingsOf_concat (events : List Event) (event : Event) :
    settingsOf (events ++ [event]) = settingsOf events ++ event.setting?.toList := by
  rw [settingsOf, List.filterMap_append]
  cases event <;> rfl

theorem attemptsBehind_append (scope : Scope) (before events others : List Event) :
    attemptsBehind scope before (events ++ others) =
      attemptsBehind scope before events ++ attemptsBehind scope (before ++ events) others := by
  induction events generalizing before with
  | nil => rw [List.append_nil, List.nil_append, attemptsBehind, List.nil_append]
  | cons event events ih =>
    rw [List.cons_append, attemptsBehind, attemptsBehind, ih, List.append_assoc, List.append_assoc]
    rfl

theorem attempts_concat (scope : Scope) (events : List Event) (event : Event) :
    attempts scope (events ++ [event]) = attempts scope events ++ event.attempts scope events := by
  rw [attempts, attemptsBehind_append, attemptsBehind, attemptsBehind, List.append_nil,
    List.nil_append]
  rfl

theorem edgesOf_append (told others : List Attempt) :
    edgesOf (told ++ others) = edgesOf told ++ edgesOf others :=
  List.filterMap_append

theorem edgesOf_concat (told : List Attempt) (e : Edge) :
    edgesOf (told ++ [.edge e]) = edgesOf told ++ [e] :=
  edgesOf_append told [.edge e]

theorem fates_append (names : List String) (before : List Edge) (told others : List Attempt) :
    fates names before (told ++ others) =
      fates names before told ++ fates names (before ++ edgesOf told) others := by
  induction told generalizing before with
  | nil => rw [List.nil_append, fates, List.nil_append, edgesOf, List.filterMap_nil, List.append_nil]
  | cons a told ih =>
    have hedges : edgesOf (a :: told) = a.edge?.toList ++ edgesOf told := by
      rw [edgesOf, List.filterMap_cons]
      cases a <;> rfl
    rw [List.cons_append, fates, fates, ih, hedges, List.append_assoc]
    rfl

/-! ### The first edge of a key -/

theorem firstOf?_append (edges others : List Edge) (e : Edge) :
    firstOf? (edges ++ others) e = (firstOf? edges e).or (firstOf? others e) :=
  List.find?_append

theorem firstOf?_singleton {e f : Edge} : firstOf? [f] e = if f.key = e.key then some f else none := by
  by_cases h : f.key = e.key
  · rw [firstOf?, List.find?_cons_of_pos (by simpa using h), if_pos h]
  · rw [firstOf?, List.find?_cons_of_neg (by simpa using h), if_neg h]
    rfl

/-- One more edge does not change which edge is the first of another key. -/
theorem firstOf?_concat_of_ne {edges : List Edge} {e f : Edge} (h : e.key ≠ f.key) :
    firstOf? (edges ++ [e]) f = firstOf? edges f := by
  rw [firstOf?_append, firstOf?_singleton, if_neg h, Option.or_none]

theorem firstOf?_eq_some {edges : List Edge} {e first : Edge} (h : firstOf? edges e = some first) :
    first ∈ edges ∧ first.key = e.key := by
  have hkey := List.find?_some h
  exact ⟨List.mem_of_find?_eq_some h, by simpa using hkey⟩

theorem firstOf?_congr {e f : Edge} (h : e.key = f.key) (edges : List Edge) :
    firstOf? edges e = firstOf? edges f := by
  rw [firstOf?, firstOf?, h]

/-- Leaving out other keys does not change which edge is the first. -/
theorem firstOf?_filter {p : Edge → Bool} {e : Edge} (hp : ∀ f : Edge, f.key = e.key → p f = true)
    (edges : List Edge) : firstOf? (edges.filter p) e = firstOf? edges e := by
  rw [firstOf?, firstOf?, List.find?_filter]
  congr 1
  funext f
  by_cases hkey : f.key = e.key
  · simp [hp f hkey, hkey]
  · simp [hkey]

end CallGraph
