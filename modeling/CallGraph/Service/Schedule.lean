import CallGraph.Service.Response

/-!
# Schedules

Scheduled units are answered side by side.  Processing takes no time, but a unit whose nodes were
run waits for the delays that it sets, before and after.  A unit that is not done within the limit
is discarded; a limit of zero leaves no time for any unit.  No single wait is longer than
`longestWait`, however long the delay that was set.
-/

namespace CallGraph

/-- How many milliseconds one wait takes at most: thirty years of 365 days. -/
def longestWait : Nat := 946080000000

/-- How many milliseconds pass until the answer is given. -/
def Response.duration (r : Response) : Nat :=
  match r.trace? with
  | some t => min t.predelay longestWait + min t.postdelay longestWait
  | none => 0

/-- Whether something that takes `duration` is done within the limit. -/
def inTime (limit : Option Nat) (duration : Nat) : Bool :=
  match limit with
  | none => true
  | some limit => 0 < limit && duration ≤ limit

/-- The answer to a scheduled unit, or that it did not finish, and when that is known. -/
def deliver (limit : Option Nat) (r : Response) : Except Failure Response × Nat :=
  if inTime limit r.duration then (.ok r, r.duration)
  else (.error (.timeout (limit.getD 0)), limit.getD 0)

/-- The answers to units that are scheduled together, each a mode and a source, and when the last
one is known. -/
def schedule (c : Configuration) (limit : Option Nat) (units : List (Mode × String)) :
    List (Except Failure Response) × Nat :=
  let answers := units.map fun (mode, source) => deliver limit (handle c mode source)
  (answers.map Prod.fst, (answers.map Prod.snd).foldl max 0)

end CallGraph
