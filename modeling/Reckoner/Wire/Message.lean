import Reckoner.Wire.Domain
import Reckoner.Worker.Assignment

/-!
# Messages

What clients and workers exchange with the coordinator.
-/

namespace Reckoner

structure Submission where
  text : String
deriving DecidableEq, Repr

structure Receipt where
  id : ExpressionId
deriving DecidableEq, Repr

structure ExpressionSummary where
  id : ExpressionId
  status : ExpressionStatus
  result : Option Float
  error : Option String
deriving DecidableEq, Repr

def Expression.summary (e : Expression) : ExpressionSummary := ⟨e.id, e.status, e.result, e.error⟩

structure ExpressionListing where
  expressions : List ExpressionSummary
deriving DecidableEq, Repr

structure ExpressionDetail where
  expression : ExpressionSummary
deriving DecidableEq, Repr

structure AssignmentReply where
  task : Option Assignment
deriving DecidableEq, Repr

structure Acknowledgement where
  status : String
deriving DecidableEq, Repr

structure Refusal where
  error : String
deriving DecidableEq, Repr

namespace Wire

instance : Wire Submission where
  encode m := .record [("expression", encode m.text)]
  decode? j := do
    let r ← j.record? ["expression"]
    return ⟨← r.defaulted? "expression" decode? ""⟩

instance : Wire Receipt where
  encode m := .record [("id", encode m.id)]
  decode? j := do
    let r ← j.record? ["id"]
    return ⟨← r.required? "id" decode?⟩

instance : Wire ExpressionSummary where
  encode m := .record ([("id", encode m.id), ("status", encode m.status)] ++
    omittable "result" m.result ++ omittable "error" m.error)
  decode? j := do
    let r ← j.record? ["id", "status", "result", "error"]
    return ⟨← r.required? "id" decode?, ← r.required? "status" decode?,
      ← r.defaulted? "result" decode? none, ← r.defaulted? "error" decode? none⟩

instance : Wire ExpressionListing where
  encode m := .record [("expressions", encode m.expressions)]
  decode? j := do
    let r ← j.record? ["expressions"]
    return ⟨← r.required? "expressions" decode?⟩

instance : Wire ExpressionDetail where
  encode m := .record [("expression", encode m.expression)]
  decode? j := do
    let r ← j.record? ["expression"]
    return ⟨← r.required? "expression" decode?⟩

instance : Wire Assignment where
  encode a := .record [("id", encode a.id), ("arg1", encode a.left), ("arg2", encode a.right),
    ("operation", encode a.operation), ("operation_time", encode a.duration)]
  decode? j := do
    let r ← j.record? ["id", "arg1", "arg2", "operation", "operation_time"]
    return ⟨← r.required? "id" decode?, ← r.required? "arg1" decode?, ← r.required? "arg2" decode?,
      ← r.required? "operation" decode?, ← r.required? "operation_time" decode?⟩

instance : Wire AssignmentReply where
  encode m := .record (omittable "task" m.task)
  decode? j := do
    let r ← j.record? ["task"]
    return ⟨← r.defaulted? "task" decode? none⟩

instance : Wire TaskResult where
  encode m :=
    .record ([("id", encode m.id)] ++ omittable "result" m.result ++ omittable "error" m.error)
  decode? j := do
    let r ← j.record? ["id", "result", "error"]
    return ⟨← r.required? "id" decode?, ← r.defaulted? "result" decode? none,
      ← r.defaulted? "error" decode? none⟩

instance : Wire Acknowledgement where
  encode m := .record [("status", encode m.status)]
  decode? j := do
    let r ← j.record? ["status"]
    return ⟨← r.required? "status" decode?⟩

instance : Wire Refusal where
  encode m := .record [("error", encode m.error)]
  decode? j := do
    let r ← j.record? ["error"]
    return ⟨← r.required? "error" decode?⟩

end Wire

end Reckoner
