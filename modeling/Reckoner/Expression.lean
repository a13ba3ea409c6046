import Reckoner.Stamp

/-!
# Expressions

A submitted formula as text, and how far its evaluation has come. It knows its tasks by their
identifiers.
-/

namespace Reckoner

inductive ExpressionStatus where
  /-- Submitted; nothing has happened to its tasks. -/
  | pending
  /-- At least one task is outstanding. -/
  | computing
  | completed
  /-- The text cannot be read, or a task failed. -/
  | failed
deriving DecidableEq, Repr

namespace ExpressionStatus

def name : ExpressionStatus → String
  | pending => "PENDING"
  | computing => "COMPUTING"
  | completed => "COMPLETED"
  | failed => "ERROR"

def all : List ExpressionStatus := [pending, computing, completed, failed]

def isTerminal : ExpressionStatus → Bool
  | pending => false
  | computing => false
  | completed => true
  | failed => true

end ExpressionStatus

structure Expression where
  id : ExpressionId
  text : String
  status : ExpressionStatus
  result : Option Float
  error : Option String
  createdAt : Instant
  updatedAt : Instant
  taskIds : List TaskId
deriving DecidableEq, Repr

namespace Expression

def create (text : String) (stamp : Stamp) : Expression where
  id := ⟨stamp.uuid⟩
  text := text
  status := .pending
  result := none
  error := none
  createdAt := stamp.time
  updatedAt := stamp.time
  taskIds := []

def touch (e : Expression) (now : Instant) : Expression := { e with updatedAt := now }

def startComputing (e : Expression) (now : Instant) : Expression :=
  if e.status = .pending then { e with status := .computing, updatedAt := now } else e

def complete (e : Expression) (result : Float) (now : Instant) : Expression :=
  { e with status := .completed, result := some result, error := none, updatedAt := now }

def fail (e : Expression) (error : String) (now : Instant) : Expression :=
  { e with status := .failed, result := none, error := some error, updatedAt := now }

end Expression

end Reckoner
