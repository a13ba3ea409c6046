import Reckoner.Task.Graph

/-!
# Outcomes

What the tasks of an expression say about it: the first failed task fails it, and once all tasks
are completed the result of the root is its result.
-/

namespace Reckoner

inductive Outcome where
  | failed (message : String)
  | resolved (result : Float)
  | inProgress
deriving DecidableEq, Repr

namespace Outcome

def unnamedFailure : String := "task failed"

def ofCompleted (tasks : List Task) : Except Fault Outcome := do
  match (← TaskGraph.ofTasks tasks).root with
  | none => .error (.invalid .noSingleRoot)
  | some root =>
    match (tasks.find? fun t => t.id == root).bind Task.completedResult with
    | none => .ok .inProgress
    | some result => .ok (.resolved result)

/-- The outcome of a list of tasks, whose order decides between failed ones. -/
def ofTasks (tasks : List Task) : Except Fault Outcome :=
  match tasks.find? fun t => t.status == .failed with
  | some t => .ok (.failed (t.error.getD unnamedFailure))
  | none =>
    if tasks.isEmpty || tasks.any fun t => t.status != .completed then .ok .inProgress
    else ofCompleted tasks

end Outcome

end Reckoner
