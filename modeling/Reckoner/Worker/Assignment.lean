import Reckoner.Task.Basic

/-!
# Assignments and results

What a worker receives and what it sends back.
-/

namespace Reckoner

structure Assignment where
  id : TaskId
  left : Float
  right : Float
  operation : Operation
  /-- How long the work is made to take, in milliseconds. -/
  duration : UInt64
deriving DecidableEq, Repr

/-- What a worker says about a task: a result or an error. The error wins over the result. -/
structure TaskResult where
  id : TaskId
  result : Option Float
  error : Option String
deriving DecidableEq, Repr

namespace TaskResult

def completed (id : TaskId) (result : Float) : TaskResult := ⟨id, some result, none⟩

def failed (id : TaskId) (error : String) : TaskResult := ⟨id, none, some error⟩

end TaskResult

namespace Assignment

/-- The assignment of a task. An operand that is not known counts as zero. -/
def ofTask (t : Task) : Assignment where
  id := t.id
  left := t.left.value?.getD 0.0
  right := t.right.value?.getD 0.0
  operation := t.operation
  duration := t.duration

def compute (a : Assignment) : Except Fault Float := a.operation.apply a.left a.right

def work (a : Assignment) : TaskResult :=
  match a.compute with
  | .ok result => .completed a.id result
  | .error fault => .failed a.id fault.message

end Assignment

end Reckoner
