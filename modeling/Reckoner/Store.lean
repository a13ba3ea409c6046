import Reckoner.Expression
import Reckoner.Outcome
import Reckoner.Task.Table

/-!
# The store

The expressions and the task table. Every function is one undivided step on one of the two; a
step that fails has no new store.
-/

namespace Reckoner

structure Store where
  expressions : Std.TreeMap ExpressionId Expression
  tasks : TaskTable

namespace Store

def empty : Store := ⟨∅, .empty⟩

/-! ## Expressions -/

/-- Files a new expression, in the place of any other with its identifier. -/
def putExpression (s : Store) (e : Expression) : Store :=
  { s with expressions := s.expressions.insert e.id e }

def createExpression (s : Store) (text : String) (stamp : Stamp) : Expression × Store :=
  let e := Expression.create text stamp
  (e, s.putExpression e)

def expression (s : Store) (id : ExpressionId) : Except Fault Expression :=
  match s.expressions[id]? with
  | none => .error (.expressionNotFound id)
  | some e => .ok e

/-- Whether `a` comes before `b`, or is `b`, in the order of creation and identifier. -/
def notYounger (a b : Expression) : Bool :=
  (compareLex (compareOn Expression.createdAt) (compareOn Expression.id) a b).isLE

def listExpressions (s : Store) : List Expression := s.expressions.values.mergeSort notYounger

def modifyExpression (s : Store) (id : ExpressionId) (f : Expression → Expression) (now : Instant) :
    Except Fault (Expression × Store) := do
  let e := (f (← s.expression id)).touch now
  return (e, { s with expressions := s.expressions.insert id e })

def updateExpression (s : Store) (e : Expression) (now : Instant) : Except Fault Store := do
  let _ ← s.expression e.id
  return s.putExpression (e.touch now)

/-! ## Tasks -/

def saveTasks (s : Store) (batch : List Task) : Except Fault Store :=
  match s.tasks.insertAll batch with
  | (.error fault, _) => .error fault
  | (.ok (), tasks) => .ok { s with tasks }

def task (s : Store) (id : TaskId) : Except Fault Task :=
  match s.tasks.get? id with
  | none => .error (.taskNotFound id)
  | some t => .ok t

def updateTask (s : Store) (t : Task) : Except Fault Store :=
  match s.tasks.replace t with
  | (.error fault, _) => .error fault
  | (.ok (), tasks) => .ok { s with tasks }

def tasksOf (s : Store) (id : ExpressionId) : List Task := s.tasks.ofOwner id

/-! ## Both -/

/-- Brings an expression that is not final in line with the outcome of its tasks. -/
def recompute (s : Store) (id : ExpressionId) (now : Instant) :
    Except Fault (ExpressionStatus × Store) := do
  let e ← s.expression id
  if e.status.isTerminal then return (e.status, s)
  let e :=
    match ← Outcome.ofTasks (s.tasksOf id) with
    | .failed message => e.fail message now
    | .resolved result => e.complete result now
    | .inProgress => e.startComputing now
  return (e.status, { s with expressions := s.expressions.insert id e })

end Store

end Reckoner
