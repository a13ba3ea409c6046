import Reckoner.Dispatch
import Reckoner.Formula.Parser
import Reckoner.Store
import Reckoner.Task.Plan

/-!
# The coordinator

Takes formulas, hands their tasks to workers, takes the reports of the workers, and keeps every
expression in line with its tasks. Times and fresh identifiers come from outside.
-/

namespace Reckoner

inductive Report where
  | completed (result : Float)
  | failed (message : String)
deriving DecidableEq, Repr

def Report.apply (report : Report) (t : Task) (now : Instant) : Task :=
  match report with
  | .completed result => t.complete result now
  | .failed message => t.fail message now

structure Coordinator where
  times : OperationTimes
  /-- How long a worker may keep a task; without a term, forever. -/
  term : Option Duration
  store : Store

namespace Coordinator

def initial (times : OperationTimes) (term : Option Duration) : Coordinator := ⟨times, term, .empty⟩

/-- The lease is in milliseconds, as the settings have it. -/
def new (times : OperationTimes) (lease : Option UInt64) : Coordinator :=
  initial times (lease.map .ofMillis)

def lease (c : Coordinator) : Option UInt64 := c.term.map Duration.millis

/-! ## Submission -/

def checkShape (tasks : List Task) : Except Fault Unit := do
  if (← TaskGraph.ofTasks tasks).isTree then return () else .error (.invalid .notATree)

def refuse (s : Store) (id : ExpressionId) (message : String) (fault : Fault) (now : Instant) :
    Except Fault ExpressionId × Store :=
  match s.modifyExpression id (fun e => e.fail message now) now with
  | .error e => (.error e, s)
  | .ok (_, s) => (.error fault, s)

def launch (s : Store) (id : ExpressionId) (tasks : List Task) (now : Instant) :
    Except Fault ExpressionId × Store :=
  match s.saveTasks tasks with
  | .error e => (.error e, s)
  | .ok s =>
    match s.modifyExpression id (fun e => { e with taskIds := tasks.map Task.id }) now with
    | .error e => (.error e, s)
    | .ok (_, s) =>
      match s.recompute id now with
      | .error e => (.error e, s)
      | .ok (_, s) => (.ok id, s)

/--
Takes a formula. The expression is filed first, so a text that cannot be read leaves a failed
expression with the reason. `stamp` is for the expression, `stamps` for its tasks in order.
-/
def submit (c : Coordinator) (text : String) (stamp : Stamp) (stamps : Nat → Stamp)
    (now : Instant) : Except Fault ExpressionId × Coordinator :=
  let (e, s) := c.store.createExpression text stamp
  let (answer, s) :=
    match Formula.parse text with
    | .error cause => refuse s e.id cause.message (.rejected e.id cause) now
    | .ok f =>
      let tasks := f.plan c.times e.id stamps
      match checkShape tasks with
      | .error fault => refuse s e.id fault.message fault now
      | .ok () => launch s e.id tasks now
  (answer, { c with store := s })

/-! ## Work -/

def requeueOverdue (c : Coordinator) (now : Instant) : List TaskId × Coordinator :=
  let (ids, tasks) := c.store.tasks.requeueOverdue c.term now
  (ids, { c with store := { c.store with tasks } })

def nextTask (c : Coordinator) (asked started : Instant) : Option Task × Coordinator :=
  let c := (c.requeueOverdue asked).2
  match c.store.tasks.dispatch? started with
  | none => (none, c)
  | some (t, tasks) => (some t, { c with store := { c.store with tasks } })

/--
Records a report and brings the expression of the task in line. Reports are taken for tasks of any
status. A report for a task that is not stored changes nothing.
-/
def report (c : Coordinator) (id : TaskId) (report : Report) (now : Instant) :
    Except Fault Expression × Coordinator :=
  match c.store.task id with
  | .error e => (.error e, c)
  | .ok t =>
    match c.store.updateTask (report.apply t now) with
    | .error e => (.error e, c)
    | .ok s =>
      match s.recompute t.owner now with
      | .error e => (.error e, { c with store := s })
      | .ok (_, s) => (s.expression t.owner, { c with store := s })

end Coordinator

end Reckoner
