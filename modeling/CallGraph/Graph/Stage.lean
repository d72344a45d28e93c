import CallGraph.Graph.Basic

/-!
# Stages

The calls of a node are issued in stages: all calls with the same sequence number at once, one
number after the other.
-/

namespace CallGraph

/-- The calls of one node with one sequence number. -/
structure CallStage where
  /-- The sequence number. -/
  sequence : Nat
  /-- The calls in canonical order. -/
  calls : List Edge
deriving DecidableEq

namespace CallStage

/-- How many calls the stage issues, repeats included. -/
def fanOut (s : CallStage) : Nat :=
  (s.calls.map fun e => e.details.repeats).foldr (· + ·) 0

/-- Adds a call to the stage of its sequence number among ascending stages. -/
def add (e : Edge) : List CallStage → List CallStage
  | [] => [⟨e.details.sequence, [e]⟩]
  | s :: rest =>
    if e.details.sequence < s.sequence then ⟨e.details.sequence, [e]⟩ :: s :: rest
    else if e.details.sequence = s.sequence then ⟨s.sequence, s.calls ++ [e]⟩ :: rest
    else s :: add e rest

/-- The stages of a list of calls, by ascending sequence number. -/
def group (calls : List Edge) : List CallStage :=
  calls.foldl (fun stages e => add e stages) []

end CallStage

/-- The stages in which a node issues its calls. -/
def Graph.stages (g : Graph) (name : String) : List CallStage :=
  CallStage.group (g.edgesFrom name)

end CallGraph
