import CallGraph.Proofs.Unit.Reading
import CallGraph.Unit.Session

/-!
# Nothing is left of earlier units

A session is a reader with a memory: the graph under construction, the findings, the deferred edges
and the node declared last.  A unit that is refused leaves all of them half done, and handing over
the graph or the findings takes away that part alone.

* `Session.reset_eq` — putting a session back, part by part, gives a new one of the same set-up;
* `Session.setUp_unused` — new sessions;
* `Session.parse_eq`, `Session.run_of_ok`, `Session.run_of_error` — what reading and processing a
  text comes to;
* `Session.Operation`, `Session.after` — what can be done to a session, and what it leaves;
* `Session.setUp_foldl_after` — no history changes the set-up;
* `Session.forgets` — **the next unit** is read and processed as on a new session, whatever happened
  before.
-/

namespace CallGraph

namespace Session

/-! ### New sessions -/

/-- A session to which nothing has been done. -/
def unused (behavior : Behavior) (budget : Nat) (scope : Scope) : Session :=
  ⟨behavior, budget, scope, .fresh scope⟩

theorem foldl_addNode (s : Session) (seeds : List Node) :
    seeds.foldl (fun s n => (s.addNode n).2) s =
      { s with draft := { s.draft with
          graph := seeds.foldl (fun g n => (g.insertNode n).2) s.draft.graph } } := by
  induction seeds generalizing s with
  | nil => rfl
  | cons n seeds ih => rw [List.foldl_cons, ih]; rfl

/-- **Putting a session back** gives a new one of the same behavior, budget and scope. -/
theorem reset_eq (s : Session) : s.reset = unused s.behavior s.budget s.scope := by
  unfold reset
  simp only [foldl_addNode]
  rfl

/-- **A new session** is set up with an origin and with seeds in either order, or with neither. -/
theorem setUp_unused (behavior : Behavior) (budget : Nat) (caller : String) (start : Location)
    (seeds : List Node) :
    let plain : Session := { behavior, budget }
    plain = unused behavior budget {} ∧
    (plain.withOrigin caller start).withNodes seeds =
      unused behavior budget ⟨some caller, start, seeds⟩ ∧
    (plain.withNodes seeds).withOrigin caller start =
      unused behavior budget ⟨some caller, start, seeds⟩ := by
  intro plain
  refine ⟨rfl, reset_eq _, ?_⟩
  rw [withNodes, reset_eq]
  rfl

/-! ### Reading and processing -/

theorem foldl_record (s : Session) (events : List Event) :
    events.foldl record s = { s with draft := events.foldl (Draft.record s.scope) s.draft } := by
  induction events generalizing s with
  | nil => rfl
  | cons event events ih => rw [List.foldl_cons, ih]; rfl

/-- **A text** is read into a draft of its own. -/
theorem parse_eq (s : Session) (text : String) :
    s.parse text =
      ((Draft.ofText s.budget s.scope text).2,
        { s with draft := (Draft.ofText s.budget s.scope text).1 }) := by
  unfold parse read
  rw [reset_eq]
  simp only [foldl_record, unused]
  rcases Draft.ofText_cases s.budget s.scope text with
    ⟨hresult, hread⟩ | ⟨error, hresult, hread⟩
  · rw [hread, hresult]
    rfl
  · rw [hread, hresult]

/-- A session reads a text and processes the unit that it describes. -/
theorem run_eq (s : Session) (text : String) :
    (s.run text).1 = (processText s.behavior.process s.budget s.scope text).1 := by
  unfold run processText
  rw [parse_eq]
  rcases Draft.ofText s.budget s.scope text with ⟨draft, error | ⟨⟩⟩ <;> rfl

/-- The unit that a text describes is processed. -/
theorem run_of_ok {s : Session} {text : String} {draft : Draft}
    (h : Draft.ofText s.budget s.scope text = (draft, .ok ())) :
    (s.run text).1 = (s.behavior.process draft.toUnit).mapError .execution := by
  rw [run_eq, processText, h]

/-- A text that is refused is not processed. -/
theorem run_of_error {s : Session} {text : String} {draft : Draft} {error : SyntaxError}
    (h : Draft.ofText s.budget s.scope text = (draft, .error error)) :
    (s.run text).1 = .error (.unreadable error) := by
  rw [run_eq, processText, h]

/-- What is done with a text that has been read depends on what the reading left. -/
theorem run_congr {s t : Session} {text : String} (h : s.parse text = t.parse text) :
    s.run text = t.run text := by
  unfold run
  rw [h]

/-! ### Histories -/

/-- What can be done to a session. -/
inductive Operation where
  /-- A text is read, or refused. -/
  | parse (text : String)
  /-- A text is read and processed, or one of the two fails. -/
  | run (text : String)
  /-- What the reader of a text hands over is recorded. -/
  | record (event : Event)
  /-- A node is declared without being read from a text. -/
  | addNode (n : Node)
  /-- An edge is declared without being read from a text. -/
  | addEdge (e : Edge)
  /-- The deferred edges are retried. -/
  | resolve
  /-- The graph is handed over. -/
  | finalize
  /-- A graph is processed, and the findings are handed over. -/
  | process (g : Graph)

/-- The session that an operation leaves. -/
def after (s : Session) : Operation → Session
  | .parse text => (s.parse text).2
  | .run text => (s.run text).2
  | .record event => s.record event
  | .addNode n => (s.addNode n).2
  | .addEdge e => (s.addEdge e).2
  | .resolve => s.resolve.2
  | .finalize => s.finalize.2
  | .process g => (s.process g).2

/-- An operation concerns the unit under construction only. -/
theorem setUp_after (s : Session) (o : Operation) :
    ∃ draft, s.after o = ⟨s.behavior, s.budget, s.scope, draft⟩ := by
  cases o with
  | parse text => exact ⟨_, congrArg Prod.snd (s.parse_eq text)⟩
  | run text =>
    refine ⟨(s.run text).2.draft, ?_⟩
    show (s.run text).2 = _
    unfold run
    rw [parse_eq]
    rcases Draft.ofText s.budget s.scope text with ⟨draft, error | ⟨⟩⟩ <;> rfl
  | record event => exact ⟨_, rfl⟩
  | addNode n => exact ⟨_, rfl⟩
  | addEdge e => exact ⟨_, rfl⟩
  | resolve => exact ⟨_, rfl⟩
  | finalize => exact ⟨_, rfl⟩
  | process g => exact ⟨_, rfl⟩

/-- **Behavior, budget and scope** outlast every history. -/
theorem setUp_foldl_after (s : Session) (history : List Operation) :
    ∃ draft, history.foldl after s = ⟨s.behavior, s.budget, s.scope, draft⟩ := by
  induction history generalizing s with
  | nil => exact ⟨s.draft, rfl⟩
  | cons o history ih =>
    obtain ⟨draft, hdraft⟩ := setUp_after s o
    rw [List.foldl_cons, hdraft]
    exact ih ⟨s.behavior, s.budget, s.scope, draft⟩

/-- **Nothing is left of earlier units.**  Whatever was done to a session, putting it back makes it
a new one: no graph but the seeds, no findings, no deferred edges and no node declared last.  So the
next text is read and processed with the same answer, the same graph, the same findings and all else
the same as on a new session of that behavior, budget and scope. -/
theorem forgets (behavior : Behavior) (budget : Nat) (scope : Scope) (history : List Operation)
    (text : String) :
    let new := unused behavior budget scope
    let used := history.foldl after new
    (used.reset = new ∧ new.draft.diagnostics = [] ∧ new.draft.deferred = [] ∧
      new.draft.lastNode = none) ∧
    used.parse text = new.read text ∧
    used.parse text = new.parse text ∧
    used.run text = new.run text := by
  intro new used
  obtain ⟨draft, hused⟩ := setUp_foldl_after new history
  have hreset : used.reset = new := by rw [reset_eq, show used = _ from hused]; rfl
  have hnew : new.reset = new := reset_eq new
  have hparse : used.parse text = new.read text := congrArg (read · text) hreset
  have hsame : used.parse text = new.parse text :=
    hparse.trans (congrArg (read · text) hnew).symm
  exact ⟨⟨hreset, rfl, rfl, rfl⟩, hparse, hsame, run_congr hsame⟩

/-- A refused unit does leave an edge that waits for its target, and a node declared last. -/
example :
    let left := (unused (.execute {}) 0 {}).after (.parse ".a []; a -> b; ]")
    left.draft.deferred.map Edge.target = ["b"] ∧ left.draft.lastNode = some "a" := by
  decide +kernel

end Session

end CallGraph
