import Reckoner.Formula.Basic
import Reckoner.Task.Basic

/-!
# Plans

A formula is worked out by one task for each of its nodes. Literals are completed from the start;
an operator waits for the tasks of its two operands. Tasks come after the tasks they depend on,
and the last one is the root.
-/

namespace Reckoner

/-- How long each operation is made to take, in milliseconds. -/
structure OperationTimes where
  addition : UInt64
  subtraction : UInt64
  multiplication : UInt64
  division : UInt64
deriving DecidableEq, Repr

namespace OperationTimes

def default : OperationTimes := ⟨1000, 1000, 2000, 2000⟩

def instant : OperationTimes := ⟨0, 0, 0, 0⟩

def of (times : OperationTimes) : Operation → UInt64
  | .addition => times.addition
  | .subtraction => times.subtraction
  | .multiplication => times.multiplication
  | .division => times.division
  | .value => 0

end OperationTimes

structure Plan where
  before : List Task
  root : Task

namespace Plan

def tasks (p : Plan) : List Task := p.before ++ [p.root]

/-- The plan of a part of a formula, whose tasks take the stamps from `first` on. -/
def ofFormula (times : OperationTimes) (owner : ExpressionId) (stamps : Nat → Stamp) (first : Nat) :
    Formula → Plan
  | .number value => ⟨[], .literal owner value (stamps first)⟩
  | .binary op left right =>
    let l := ofFormula times owner stamps first left
    let r := ofFormula times owner stamps (first + left.size) right
    ⟨l.tasks ++ r.tasks,
      .composite owner op.operation l.root r.root (times.of op.operation)
        (stamps (first + left.size + right.size))⟩

end Plan

/-- The tasks of a formula: the `k`-th one takes the `k`-th stamp. -/
def Formula.plan (times : OperationTimes) (owner : ExpressionId) (stamps : Nat → Stamp)
    (f : Formula) : List Task :=
  (Plan.ofFormula times owner stamps 0 f).tasks

end Reckoner
