import Reckoner.Http.Service

/-!
# Remote workers

Workers that reach the coordinator over HTTP. They ask for tasks and send results in requests, and
take from the answers what they are told.
-/

namespace Reckoner

namespace Http

def Request.forTask : Request := ⟨.get, "/internal/task", none, ""⟩

def Request.ofResult (r : TaskResult) : Request :=
  ⟨.post, "/internal/task", some "application/json", Wire.write r⟩

namespace Response

/--
The task that an answer brings. A body that is not one gives the fault `unreadable` of the
transport.
-/
def assignment? (unreadable : Fault) (r : Response) : Except Fault (Option Assignment) :=
  match r.status with
  | 200 =>
    match (Wire.read? r.body : Option AssignmentReply) with
    | some reply => .ok reply.task
    | none => .error unreadable
  | 404 => .ok none
  | status => .error (.unexpectedStatus status)

/-- Whether the result of the task has been taken. -/
def receipt (task : TaskId) (r : Response) : Except Fault Unit :=
  match r.status with
  | 200 => .ok ()
  | 404 => .error (.taskNotFound task)
  | status => .error (.unexpectedStatus status)

end Response

end Http

open Http

/--
The coordinator behind its HTTP interface as a source of tasks. No request of a worker takes the
stamp.
-/
def Coordinator.remoteSource (unreadable : Fault) (stamp : Stamp) (clock : Nat → Instant) :
    TaskSource Clocked where
  fetch s :=
    let (answer, c) :=
      respond s.coordinator .forTask ⟨stamp, fun _ => stamp, clock s.reads, clock (s.reads + 1)⟩
    (answer.assignment? unreadable, ⟨c, s.reads + 2⟩)
  send r s :=
    let (answer, c) :=
      respond s.coordinator (.ofResult r) ⟨stamp, fun _ => stamp, clock s.reads, clock s.reads⟩
    (answer.receipt r.id, ⟨c, s.reads + 1⟩)

end Reckoner
