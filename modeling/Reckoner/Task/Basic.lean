import Reckoner.Operation
import Reckoner.Stamp

/-!
# Tasks

A task is one step of an expression: a literal, or an operation on the results of two other tasks.
A task is pending, then in a worker's hands, then completed or failed.
-/

namespace Reckoner

inductive TaskStatus where
  | pending
  | processing
  | completed
  | failed
deriving DecidableEq, Repr

namespace TaskStatus

def name : TaskStatus → String
  | pending => "PENDING"
  | processing => "PROCESSING"
  | completed => "COMPLETED"
  | failed => "ERROR"

def all : List TaskStatus := [pending, processing, completed, failed]

end TaskStatus

inductive Operand where
  | literal (value : Float)
  /-- The result of another task, once it is known. -/
  | result (task : TaskId) (value : Option Float)
deriving DecidableEq, Repr

namespace Operand

def value? : Operand → Option Float
  | literal value => some value
  | result _ value => value

def source? : Operand → Option TaskId
  | literal _ => none
  | result task _ => some task

/-- Fills the slot if it waits for, or already has, the result of the given task. -/
def resolve (task : TaskId) (value : Float) : Operand → Operand
  | literal v => literal v
  | result source v => result source (if source = task then some value else v)

end Operand

structure Task where
  id : TaskId
  owner : ExpressionId
  operation : Operation
  left : Operand
  right : Operand
  status : TaskStatus
  result : Option Float
  error : Option String
  /-- How long the operation is made to take, in milliseconds. -/
  duration : UInt64
  dependencies : List TaskId
  createdAt : Instant
  startedAt : Option Instant
  completedAt : Option Instant
deriving DecidableEq, Repr

namespace Task

/-! ## Reading a task -/

def completedResult (t : Task) : Option Float :=
  if t.status = .completed then t.result else none

def operandValues (t : Task) : Option (Float × Float) := do
  return (← t.left.value?, ← t.right.value?)

def dependsOn (t : Task) (id : TaskId) : Bool := t.dependencies.contains id

def hasSlotFor (t : Task) (id : TaskId) : Bool :=
  t.left.source? == some id || t.right.source? == some id

def isFinished (t : Task) : Bool := t.status == .completed || t.status == .failed

def asOperand (t : Task) : Operand := .result t.id t.completedResult

/-! ## Making tasks -/

/-- A literal, completed from the start. -/
def literal (owner : ExpressionId) (value : Float) (stamp : Stamp) : Task where
  id := ⟨stamp.uuid⟩
  owner := owner
  operation := .value
  left := .literal value
  right := .literal 0.0
  status := .completed
  result := some value
  error := none
  duration := 0
  dependencies := []
  createdAt := stamp.time
  startedAt := none
  completedAt := some stamp.time

def composite (owner : ExpressionId) (operation : Operation) (left right : Task) (duration : UInt64)
    (stamp : Stamp) : Task where
  id := ⟨stamp.uuid⟩
  owner := owner
  operation := operation
  left := left.asOperand
  right := right.asOperand
  status := .pending
  result := none
  error := none
  duration := duration
  dependencies := [left.id, right.id]
  createdAt := stamp.time
  startedAt := none
  completedAt := none

/-! ## Life of a task -/

def start (t : Task) (now : Instant) : Task :=
  { t with status := .processing, startedAt := some now }

def complete (t : Task) (result : Float) (now : Instant) : Task :=
  { t with status := .completed, result := some result, error := none, completedAt := some now }

def fail (t : Task) (error : String) (now : Instant) : Task :=
  { t with status := .failed, result := none, error := some error, completedAt := some now }

def requeue (t : Task) : Task := { t with status := .pending, startedAt := none }

/-- Writes a result into every slot for it. -/
def resolve (t : Task) (id : TaskId) (result : Float) : Task :=
  { t with left := t.left.resolve id result, right := t.right.resolve id result }

end Task

end Reckoner
