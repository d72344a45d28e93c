import CallGraph.Proofs.Graph.Order
import CallGraph.Proofs.Graph.Stages
import CallGraph.Unit.Execution

/-!
# What an execution runs

An execution asks the executor for one node after the other, in the order of the unit, up to the first
that fails, and its trace shows every edge as one call.

* `Issue` — a call with the node and the stage that issue it, `perm_issues` — those of all nodes are
  the edges of the graph;
* `Passes` — nodes that run one after the other without a failure, and `Executor.recorded` — an
  executor that notes what it is asked for;
* `execute_of_obstacles`, `execute_of_refused` — units of which no node runs;
* `execute_of_passes`, `execute_of_failure`, `execute_of_order` — an execution by what its nodes do;
* `executionOrder_cases` — the order of a unit;
* `execute_outcomes` — what an execution comes to;
* `execution_runs_prefix` — **an execution** runs the nodes of the order up to the first failure.
-/

namespace CallGraph

/-! ### Traces -/

/-- A call with the node and the stage that issue it. -/
structure Issue where
  /-- The node that calls. -/
  node : String
  /-- The sequence number of the stage. -/
  sequence : Nat
  /-- The node that is called. -/
  target : String
  /-- The kind of the call. -/
  kind : String
  /-- How often it is issued. -/
  repeats : Nat
  /-- Whether a payload is sent along. -/
  hasPayload : Bool
deriving DecidableEq

/-- The call that an edge stands for. -/
def Edge.issue (e : Edge) : Issue :=
  ⟨e.source, e.details.sequence, e.target, e.kind, e.details.repeats, e.details.payload.isSome⟩

/-- All calls that a trace shows. -/
def Trace.issues (t : Trace) : List Issue :=
  t.steps.flatMap fun step => step.stages.flatMap fun stage => stage.calls.map fun call =>
    ⟨step.node, stage.sequence, call.target, call.kind, call.repeats, call.hasPayload⟩

namespace Graph

/-- What the trace shows about a node that ran. -/
def stepOf (g : Graph) (n : Node) : Step := ⟨n.name, g.callStages n⟩

/-- The trace once these nodes ran. -/
def traceOf (g : Graph) (nodes : List Node) : Trace :=
  { g.emptyTrace with steps := nodes.map g.stepOf }

/-- The trace of the first nodes is the beginning of the whole trace. -/
theorem traceOf_take (g : Graph) (before behind : List Node) :
    g.traceOf before = { g.traceOf (before ++ behind) with
      steps := (g.traceOf (before ++ behind)).steps.take before.length } := by
  unfold traceOf
  rw [List.map_append, List.take_left' (List.length_map _)]

/-- **Every edge is issued once**, by its source and in the stage of its sequence number. -/
theorem perm_issues {g : Graph} (h : g.WellFormed) {order : List Node} (horder : order.Perm g.nodes) :
    (g.traceOf order).issues.Perm (g.edges.map Edge.issue) := by
  have hissues : (g.traceOf order).issues =
      (order.flatMap fun n => (g.stages n.name).flatMap CallStage.calls).map Edge.issue := by
    show (order.map g.stepOf).flatMap _ = _
    rw [List.flatMap_map, List.map_flatMap]
    refine List.flatMap_congr fun n _ => ?_
    show (g.callStages n).flatMap _ = _
    rw [callStages, List.flatMap_map, List.map_flatMap]
    refine List.flatMap_congr fun stage hstage => ?_
    rw [List.map_map]
    refine List.map_congr_left fun e he => ?_
    obtain ⟨he, hsequence⟩ := ((staged_group (g.edgesFrom n.name)).mem_calls hstage).1 he
    rw [h.edgesFrom_eq, List.mem_filter, decide_eq_true_eq] at he
    show Issue.mk n.name stage.sequence _ _ _ _ = _
    rw [← he.2, ← hsequence]
    rfl
  rw [hissues]
  exact (h.perm_calls horder).map _

end Graph

/-! ### Running nodes -/

section

variable {σ : Type}

/-- The executor takes the nodes one after the other without a failure, from the first state to the
second. -/
inductive Passes (executor : Executor σ) (g : Graph) : σ → List Node → σ → Prop where
  | nil {s : σ} : Passes executor g s [] s
  | cons {s s' s'' : σ} {n : Node} {nodes : List Node} :
    executor n (g.callStages n) s = (.ok (), s') → Passes executor g s' nodes s'' →
    Passes executor g s (n :: nodes) s''

/-- The executor that also notes the nodes that it is asked for, with their stages. -/
def Executor.recorded (executor : Executor σ) : Executor (σ × List (Node × List Stage)) :=
  fun n stages s => ((executor n stages s.1).1, ((executor n stages s.1).2, s.2 ++ [(n, stages)]))

/-- A node with its stages, as the executor is asked for it. -/
def Graph.request (g : Graph) (n : Node) : Node × List Stage := (n, g.callStages n)

variable {executor : Executor σ} {g : Graph} {s s' s'' : σ} {nodes before behind : List Node} {v : Node}
  {message : String}

/-- Either all nodes pass, or there is a first that fails. -/
theorem passes_or_fails (executor : Executor σ) (g : Graph) (nodes : List Node) (s : σ) :
    (∃ s', Passes executor g s nodes s') ∨
    ∃ before v behind message s' s'', nodes = before ++ v :: behind ∧ Passes executor g s before s' ∧
      executor v (g.callStages v) s' = (.error message, s'') := by
  induction nodes generalizing s with
  | nil => exact .inl ⟨s, .nil⟩
  | cons n nodes ih =>
    rcases hstep : executor n (g.callStages n) s with ⟨message | ⟨⟩, s'⟩
    · exact .inr ⟨[], n, nodes, message, s, s', rfl, .nil, hstep⟩
    · rcases ih s' with ⟨last, hpasses⟩ | ⟨before, v, behind, message, t, t', rfl, hpasses, hfails⟩
      · exact .inl ⟨last, .cons hstep hpasses⟩
      · exact .inr ⟨n :: before, v, behind, message, t, t', rfl, .cons hstep hpasses, hfails⟩

/-- **Nodes that pass** all run. -/
theorem Passes.runNodes_eq (h : Passes executor g s nodes s') (rest : List Node) :
    runNodes executor g (nodes ++ rest) s =
      { runNodes executor g rest s' with
        steps := nodes.map g.stepOf ++ (runNodes executor g rest s').steps } := by
  induction h with
  | nil => rfl
  | @cons s t s' n nodes hstep _ ih =>
    rw [List.cons_append, runNodes, hstep]
    dsimp only
    rw [ih]
    rfl

/-- What is noted about nodes that pass. -/
theorem Passes.recorded (h : Passes executor g s nodes s') (noted : List (Node × List Stage)) :
    Passes executor.recorded g (s, noted) nodes (s', noted ++ nodes.map g.request) := by
  induction h generalizing noted with
  | nil =>
    rw [List.map_nil, List.append_nil]
    exact .nil
  | @cons s t s' n nodes hstep _ ih =>
    rw [List.map_cons, List.append_cons]
    refine .cons ?_ (ih _)
    rw [Executor.recorded, hstep]
    rfl

theorem passes_willing (g : Graph) (nodes : List Node) (s : σ) :
    Passes (fun _ _ s => (.ok (), s)) g s nodes s := by
  induction nodes with
  | nil => exact .nil
  | cons n nodes ih => exact .cons rfl ih

/-! ### Executing units -/

variable {c : Configuration} {u : SourceUnit}

/-- A unit with obstacles is rejected before any node runs. -/
theorem execute_of_obstacles (h : obstacles c u ≠ []) (executor : Executor σ) (s : σ) :
    execute c executor u s = (.error (.rejected (obstacles c u)), s) := by
  unfold execute
  cases hobstacles : obstacles c u with
  | nil => exact absurd hobstacles h
  | cons d ds => rfl

/-- A unit without an order is refused before any node runs. -/
theorem execute_of_refused {error : ExecutionError} (hobstacles : obstacles c u = [])
    (horder : executionOrder c u.graph = .error error) (executor : Executor σ) (s : σ) :
    execute c executor u s = (.error error, s) := by
  rw [execute, hobstacles, horder]

/-- An execution all of whose nodes pass. -/
theorem execute_of_passes (hobstacles : obstacles c u = [])
    (horder : executionOrder c u.graph = .ok nodes) (h : Passes executor u.graph s nodes s') :
    execute c executor u s = (.ok ⟨u.graph.traceOf nodes, u.graph.logLines⟩, s') := by
  have hran := h.runNodes_eq []
  rw [List.append_nil] at hran
  simp only [execute, hobstacles, horder, hran, runNodes, List.append_nil]
  rfl

/-- An execution that one of the nodes stops. -/
theorem execute_of_failure (hobstacles : obstacles c u = [])
    (horder : executionOrder c u.graph = .ok (before ++ v :: behind))
    (h : Passes executor u.graph s before s')
    (hfails : executor v (u.graph.callStages v) s' = (.error message, s'')) :
    execute c executor u s =
      (.error (.nodeFailed v.name message (u.graph.traceOf before)), s'') := by
  have hran := h.runNodes_eq (v :: behind)
  simp only [execute, hobstacles, horder, hran, runNodes, hfails, List.append_nil]
  rfl

/-- An execution that has an order: all nodes of the order pass, or one of them stops it. -/
theorem execute_of_order (hobstacles : obstacles c u = [])
    (horder : executionOrder c u.graph = .ok nodes) (executor : Executor σ) (s : σ) :
    (∃ s', Passes executor u.graph s nodes s' ∧
      execute c executor u s = (.ok ⟨u.graph.traceOf nodes, u.graph.logLines⟩, s')) ∨
    ∃ before v behind message s' s'', nodes = before ++ v :: behind ∧
      Passes executor u.graph s before s' ∧
      executor v (u.graph.callStages v) s' = (.error message, s'') ∧
      execute c executor u s =
        (.error (.nodeFailed v.name message (u.graph.traceOf before)), s'') := by
  rcases passes_or_fails executor u.graph nodes s with ⟨s', hpasses⟩ |
    ⟨before, v, behind, message, s', s'', rfl, hpasses, hfails⟩
  · exact .inl ⟨s', hpasses, execute_of_passes hobstacles horder hpasses⟩
  · exact .inr ⟨before, v, behind, message, s', s'', rfl, hpasses, hfails,
      execute_of_failure hobstacles horder hpasses hfails⟩

/-- The order of a unit has all its nodes.  There is none if there is a cycle that is not allowed. -/
theorem executionOrder_cases (c : Configuration) (h : g.WellFormed) :
    (∃ order, executionOrder c g = .ok order ∧ order.Perm g.nodes ∧
      ((c.allowCycles = true ∧ order = g.relaxedOrder) ∨
        (c.allowCycles = false ∧ g.order = .ok order))) ∨
    (c.allowCycles = false ∧ ∃ path others, g.cycles = path :: others ∧
      executionOrder c g = .error (.cycle path)) := by
  unfold executionOrder
  cases c.allowCycles with
  | true =>
    have hschedule : g.Schedule true g.relaxedOrder := h.schedule true
    exact .inl ⟨_, rfl, hschedule.perm h hschedule.not_left, .inl ⟨rfl, rfl⟩⟩
  | false =>
    cases hcycles : g.cycles with
    | nil =>
      obtain ⟨order, horder⟩ := h.order_of_cycles_nil hcycles
      obtain ⟨order', -, ⟨horder', hperm⟩ | ⟨herror, -⟩⟩ := h.order_cases
      · obtain rfl := Except.ok.inj (horder.symm.trans horder')
        rw [horder]
        exact .inl ⟨order, rfl, hperm, .inr ⟨rfl, rfl⟩⟩
      · rw [horder] at herror
        cases herror
    | cons path others =>
      rw [h.order_of_cycles_cons hcycles]
      exact .inr ⟨rfl, path, others, rfl, rfl⟩

/-- **What an execution comes to**: the unit is rejected for its obstacles or refused for a cycle, all
nodes pass, or one of them fails. -/
theorem execute_outcomes (c : Configuration) (executor : Executor σ) (h : u.graph.WellFormed) (s : σ) :
    (obstacles c u ≠ [] ∧ execute c executor u s = (.error (.rejected (obstacles c u)), s)) ∨
    (obstacles c u = [] ∧ c.allowCycles = false ∧ ∃ path others, u.graph.cycles = path :: others ∧
      execute c executor u s = (.error (.cycle path), s)) ∨
    (obstacles c u = [] ∧ (c.allowCycles = false → u.graph.cycles = []) ∧
      ∃ order, executionOrder c u.graph = .ok order ∧ order.Perm u.graph.nodes ∧
        ((∃ s', Passes executor u.graph s order s' ∧
            execute c executor u s = (.ok ⟨u.graph.traceOf order, u.graph.logLines⟩, s')) ∨
          ∃ before v behind message s' s'', order = before ++ v :: behind ∧
            Passes executor u.graph s before s' ∧
            executor v (u.graph.callStages v) s' = (.error message, s'') ∧
            execute c executor u s =
              (.error (.nodeFailed v.name message (u.graph.traceOf before)), s''))) := by
  by_cases hobstacles : obstacles c u = []
  · refine .inr ?_
    rcases executionOrder_cases c h with ⟨order, horder, hperm, hchosen⟩ |
      ⟨hallowed, path, others, hcycles, horder⟩
    · have hcycles : c.allowCycles = false → u.graph.cycles = [] := by
        intro hallowed
        rcases hchosen with ⟨hallowed', -⟩ | ⟨-, hplaced⟩
        · rw [hallowed] at hallowed'
          cases hallowed'
        · exact h.cycles_of_order hplaced
      exact .inr ⟨hobstacles, hcycles, order, horder, hperm,
        execute_of_order hobstacles horder executor s⟩
    · exact .inl ⟨hobstacles, hallowed, path, others, hcycles,
        execute_of_refused hobstacles horder executor s⟩
  · exact .inl ⟨hobstacles, execute_of_obstacles hobstacles executor s⟩

end

/-- **An execution runs a prefix of the order**, whatever the executor does.

* A unit with obstacles is rejected, and one with a cycle that is not allowed is refused; the executor
  is not asked for anything.
* Otherwise there is an order of all nodes, and the trace of an execution without failures has one
  step for each of them, in this order, and shows every edge once.
* If no node fails, the executor is asked for the nodes of the order one after the other, and this is
  the trace.
* If a node fails, the executor is asked for the nodes up to that one and for no other.  The error has
  the name of the node, the message of the executor, and the steps of the whole trace that come before
  that of the node. -/
theorem execution_runs_prefix {σ : Type} (c : Configuration) (executor : Executor σ)
    (changes : List Change) (incoming : List Diagnostic) (s : σ) :
    let g := Graph.built changes
    let u : SourceUnit := ⟨g, incoming⟩
    let executed := execute c executor u s
    let recorded := execute c executor.recorded u (s, [])
    (obstacles c u ≠ [] ∧ executed = (.error (.rejected (obstacles c u)), s) ∧
      recorded = (.error (.rejected (obstacles c u)), (s, []))) ∨
    (obstacles c u = [] ∧ c.allowCycles = false ∧ ∃ path others, g.cycles = path :: others ∧
      executed = (.error (.cycle path), s) ∧ recorded = (.error (.cycle path), (s, []))) ∨
    (obstacles c u = [] ∧ ∃ order full,
      ((c.allowCycles = true ∧ order = g.relaxedOrder) ∨
        (c.allowCycles = false ∧ g.order = .ok order)) ∧
      order.Perm g.nodes ∧
      execute c (fun _ _ t => (.ok (), t)) u s = (.ok ⟨full, g.logLines⟩, s) ∧
      full.steps = order.map (fun n => ⟨n.name, g.callStages n⟩) ∧
      full.issues.Perm (g.edges.map Edge.issue) ∧
      ((∃ s', Passes executor g s order s' ∧
          executed = (.ok ⟨full, g.logLines⟩, s') ∧
          recorded = (.ok ⟨full, g.logLines⟩,
            (s', order.map fun n => (n, g.callStages n)))) ∨
        ∃ before v behind message s' s'', order = before ++ v :: behind ∧
          Passes executor g s before s' ∧
          executor v (g.callStages v) s' = (.error message, s'') ∧
          let partly := { full with steps := full.steps.take before.length }
          executed = (.error (.nodeFailed v.name message partly), s'') ∧
          recorded = (.error (.nodeFailed v.name message partly),
            (s'', (before ++ [v]).map fun n => (n, g.callStages n))))) := by
  intro g u executed recorded
  have hg : g.WellFormed := Graph.wellFormed_built changes
  by_cases hobstacles : obstacles c u = []
  · refine .inr ?_
    rcases executionOrder_cases c hg with ⟨order, horder, hperm, hchosen⟩ |
      ⟨hcycles, path, others, hpath, horder⟩
    · refine .inr ⟨hobstacles, order, g.traceOf order, hchosen, hperm,
        execute_of_passes hobstacles horder (passes_willing g order s), rfl,
        Graph.perm_issues hg hperm, ?_⟩
      rcases passes_or_fails executor g order s with ⟨s', hpasses⟩ |
        ⟨before, v, behind, message, s', s'', rfl, hpasses, hfails⟩
      · exact .inl ⟨s', hpasses, execute_of_passes hobstacles horder hpasses,
          execute_of_passes hobstacles horder (hpasses.recorded [])⟩
      · have htrace := g.traceOf_take before (v :: behind)
        refine .inr ⟨before, v, behind, message, s', s'', rfl, hpasses, hfails, ?_, ?_⟩
        · rw [← htrace]
          exact execute_of_failure hobstacles horder hpasses hfails
        · rw [← htrace]
          refine execute_of_failure hobstacles horder (hpasses.recorded []) ?_
          rw [Executor.recorded, hfails, List.map_append]
          rfl
    · exact .inl ⟨hobstacles, hcycles, path, others, hpath,
        execute_of_refused hobstacles horder executor s,
        execute_of_refused hobstacles horder executor.recorded (s, [])⟩
  · exact .inl ⟨hobstacles, execute_of_obstacles hobstacles executor s,
      execute_of_obstacles hobstacles executor.recorded (s, [])⟩

end CallGraph
