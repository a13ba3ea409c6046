import Reckoner.Expression
import Reckoner.Task.Plan
import Reckoner.Wire.Basic

/-!
# Tasks and expressions on the wire
-/

namespace Reckoner.Wire

instance : Wire Operation := ⟨fun op => .text op.name, oneOf? Operation.all Operation.name⟩

instance : Wire TaskStatus := ⟨fun s => .text s.name, oneOf? TaskStatus.all TaskStatus.name⟩

instance : Wire ExpressionStatus :=
  ⟨fun s => .text s.name, oneOf? ExpressionStatus.all ExpressionStatus.name⟩

/-! ## Operands

An operand is an object with its kind among the members, or an array with its kind in front. It is
looked through before its kind is known, so everything in it has to be sound. -/

mutual

/--
Whether a value has no number beyond the range, no text with an unpaired surrogate, and at most
`room` levels.
-/
def isSound (room : Nat) : Json → Bool
  | .null => true
  | .bool _ => true
  | .number n => (Json.numberOf? n).isSome
  | .string s => s.isSome
  | .array items => 0 < room && areSound (room - 1) items
  | .object members => 0 < room && areSoundMembers (room - 1) members

def areSound (room : Nat) : List Json → Bool
  | [] => true
  | item :: items => isSound room item && areSound room items

def areSoundMembers (room : Nat) : List (Option String × Json) → Bool
  | [] => true
  | (name, value) :: members => name.isSome && isSound room value && areSoundMembers room members

end

def kind? : Json → Option (String × Json)
  | .object members =>
    match members.partition fun m => m.1 == some "kind" with
    | ([(_, kind)], rest) => (text? kind).map (·, .object rest)
    | _ => none
  | .array (kind :: items) => (text? kind).map (·, .array items)
  | _ => none

/-- How many levels a document may have in its operands. -/
def maxLevels : Nat := 127

def operand? (room : Nat) (j : Json) : Option Operand :=
  if isSound room j then
    match kind? j with
    | some ("literal", rest) => do
      let r ← rest.record? ["value"]
      return .literal (← r.required? "value" decode?)
    | some ("task", rest) => do
      let r ← rest.record? ["id", "value"]
      return .result (← r.required? "id" decode?) (← r.optional? "value" decode?)
    | _ => none
  else none

instance : Wire Operand where
  encode
    | .literal value => .record [("kind", .text "literal"), ("value", encode value)]
    | .result task value =>
      .record [("kind", .text "task"), ("id", encode task), ("value", encode value)]
  decode? := operand? maxLevels

/-! ## Records -/

instance : Wire Task where
  encode t := .record [("id", encode t.id), ("expression_id", encode t.owner),
    ("operation", encode t.operation), ("arg1", encode t.left), ("arg2", encode t.right),
    ("status", encode t.status), ("result", encode t.result), ("error", encode t.error),
    ("operation_time", encode t.duration), ("dependencies", encode t.dependencies),
    ("created_at", encode t.createdAt), ("started_at", encode t.startedAt),
    ("completed_at", encode t.completedAt)]
  decode? j := do
    let r ← j.record? ["id", "expression_id", "operation", "arg1", "arg2", "status", "result",
      "error",
      "operation_time", "dependencies", "created_at", "started_at", "completed_at"]
    return {
      id := ← r.required? "id" decode?
      owner := ← r.required? "expression_id" decode?
      operation := ← r.required? "operation" decode?
      left := ← r.required? "arg1" (operand? (maxLevels - 1))
      right := ← r.required? "arg2" (operand? (maxLevels - 1))
      status := ← r.required? "status" decode?
      result := ← r.optional? "result" decode?
      error := ← r.optional? "error" decode?
      duration := ← r.required? "operation_time" decode?
      dependencies := ← r.required? "dependencies" decode?
      createdAt := ← r.required? "created_at" decode?
      startedAt := ← r.optional? "started_at" decode?
      completedAt := ← r.optional? "completed_at" decode? }

instance : Wire Expression where
  encode e :=
    .record [("id", encode e.id), ("expression", encode e.text), ("status", encode e.status),
    ("result", encode e.result), ("error", encode e.error), ("created_at", encode e.createdAt),
    ("updated_at", encode e.updatedAt), ("task_ids", encode e.taskIds)]
  decode? j := do
    let r ← j.record? ["id", "expression", "status", "result", "error", "created_at", "updated_at",
      "task_ids"]
    return {
      id := ← r.required? "id" decode?
      text := ← r.required? "expression" decode?
      status := ← r.required? "status" decode?
      result := ← r.optional? "result" decode?
      error := ← r.optional? "error" decode?
      createdAt := ← r.required? "created_at" decode?
      updatedAt := ← r.required? "updated_at" decode?
      taskIds := ← r.defaulted? "task_ids" decode? [] }

instance : Wire OperationTimes where
  encode t := .record [("addition_ms", encode t.addition), ("subtraction_ms", encode t.subtraction),
    ("multiplication_ms", encode t.multiplication), ("division_ms", encode t.division)]
  decode? j := do
    let r ← j.record? ["addition_ms", "subtraction_ms", "multiplication_ms", "division_ms"]
    let d := OperationTimes.default
    return {
      addition := ← r.defaulted? "addition_ms" decode? d.addition
      subtraction := ← r.defaulted? "subtraction_ms" decode? d.subtraction
      multiplication := ← r.defaulted? "multiplication_ms" decode? d.multiplication
      division := ← r.defaulted? "division_ms" decode? d.division }

end Reckoner.Wire
