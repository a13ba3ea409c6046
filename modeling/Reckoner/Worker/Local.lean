import Reckoner.Coordinator
import Reckoner.Worker.Crew

/-!
# Local workers

Workers in the process of the coordinator, which serves them without a transport.
-/

namespace Reckoner

def TaskResult.report? (r : TaskResult) : Except Fault Report :=
  match r.error, r.result with
  | some message, _ => .ok (.failed message)
  | none, some result => .ok (.completed result)
  | none, none => .error (.invalid .emptyReport)

namespace Coordinator

def fetch (c : Coordinator) (asked started : Instant) : Option Assignment × Coordinator :=
  let (t, c) := c.nextTask asked started
  (t.map Assignment.ofTask, c)

def receive (c : Coordinator) (r : TaskResult) (now : Instant) : Except Fault Unit × Coordinator :=
  match r.report? with
  | .error fault => (.error fault, c)
  | .ok report =>
    let (answer, c) := c.report r.id report now
    (answer.map fun _ => (), c)

/-- A coordinator, and how often its clock has been read. -/
structure Clocked where
  coordinator : Coordinator
  reads : Nat

/-- The coordinator as a source of tasks. The clock gives the time of its `n`-th reading. -/
def source (clock : Nat → Instant) : TaskSource Clocked where
  fetch s :=
    let (task, c) := s.coordinator.fetch (clock s.reads) (clock (s.reads + 1))
    (.ok task, ⟨c, s.reads + 2⟩)
  send r s :=
    let (answer, c) := s.coordinator.receive r (clock s.reads)
    (answer, ⟨c, s.reads + 1⟩)

end Coordinator

end Reckoner
