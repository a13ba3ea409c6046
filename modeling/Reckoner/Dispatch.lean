import Reckoner.Task.Table

/-!
# Dispatch

Which task is handed out next, and when a task is taken back. A task can be handed out when it is
pending, its dependencies are completed and its operands are known; the first such task of the
queue goes first. With a lease, a task that a worker has kept for the whole lease is taken back.
-/

namespace Reckoner.TaskTable

def isEligible (table : TaskTable) (t : Task) : Bool :=
  t.status == .pending &&
    t.dependencies.all (fun id => (table.get? id).any fun d => d.status == .completed) &&
    t.operandValues.isSome

def nextEligible? (table : TaskTable) : Option Task :=
  table.queue.toList.findSome? fun key => (table.get? key.id).filter table.isEligible

def dispatch? (table : TaskTable) (now : Instant) : Option (Task × TaskTable) :=
  table.nextEligible?.bind fun t => table.start? t.id now

/-- Whether a worker has had the task for the whole lease by `now`. -/
def isOverdue (lease : Duration) (now : Instant) (t : Task) : Bool :=
  t.status == .processing &&
    match t.startedAt.bind fun started => started.later? lease with
    | none => false
    | some deadline => deadline.notAfter now

def overdue (table : TaskTable) (lease : Option Duration) (now : Instant) : List TaskId :=
  match lease with
  | none => []
  | some lease => (table.tasks.values.filter (isOverdue lease now)).map Task.id

def requeueOverdue (table : TaskTable) (lease : Option Duration) (now : Instant) :
    List TaskId × TaskTable :=
  let ids := table.overdue lease now
  (ids, ids.foldl requeue table)

end Reckoner.TaskTable
