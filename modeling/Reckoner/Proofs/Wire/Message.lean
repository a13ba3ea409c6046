import Reckoner.Proofs.Id
import Reckoner.Proofs.Json.Bytes
import Reckoner.Proofs.Json.Document
import Reckoner.Proofs.Json.Exact
import Reckoner.Wire.Message

/-!
# What workers read

Identifiers, texts and durations arrive as they were sent. A number arrives as what is read from its
numeral (`passed?`), which need not be the same number, and if it is not finite it does not arrive
at all.
-/

namespace Reckoner

namespace Json

theorem regular_ofFloat (x : Float) : (ofFloat x).Regular := by
  rcases ofFloat_eq x with h | ⟨n, hn, h⟩
  · rw [h]
    exact .null
  · rw [h]
    exact .number hn

theorem regular_ofUInt64 (n : UInt64) : (ofUInt64 n).Regular := by
  obtain ⟨m, hm, h⟩ := ofUInt64_eq n
  rw [h]
  exact .number hm

/-! ## Records -/

theorem regular_record {members : List (String × Json)} (h : ∀ m ∈ members, m.2.Regular) :
    (record members).Regular := by
  refine .object fun m hm => ?_
  obtain ⟨m', hm', rfl⟩ := List.mem_map.1 hm
  exact h m' hm'

theorem mapM_members (members : List (String × Json)) :
    (members.map fun (name, value) => (some name, value)).mapM
      (fun ((name, value) : Option String × Json) => name.map (·, value)) = some members := by
  induction members with
  | nil => rfl
  | cons m members ih =>
    rw [List.map_cons, List.mapM_cons, ih]
    rfl

theorem record?_record {names : List String} {members : List (String × Json)}
    (h : repeats names members = false) :
    (record members).record? names = some ⟨true, members⟩ := by
  simp only [record, record?, mapM_members, Option.bind_eq_bind, Option.bind_some, h]
  rfl

end Json

namespace Wire

variable {α : Type} [Wire α]

theorem read?_write {a : α} (h : (encode a).Regular) :
    (read? (write a) : Option α) = decode? (encode a) := by
  rw [read?, write, Json.parse?_render h, Option.bind_some]

theorem readBytes?_toByteArray (text : String) :
    (readBytes? text.toByteArray : Option α) = read? text := by
  rw [readBytes?, Json.parseBytes?_toByteArray, read?]

theorem decode?_encode_id {kind : IdKind} (id : Id kind) : decode? (encode id) = some id :=
  Id.parse?_text id

theorem decode?_encode_duration (n : UInt64) : decode? (encode n) = some n :=
  Json.toUInt64?_ofUInt64 n

theorem decode?_encode_operation (op : Operation) : decode? (encode op) = some op := by
  cases op <;> rfl

/-! ## Assignments -/

end Wire

def Assignment.passed? (a : Assignment) : Option Assignment := do
  return { a with left := ← Json.passed? a.left, right := ← Json.passed? a.right }

namespace Wire

theorem decode?_encode_assignment (a : Assignment) : decode? (encode a) = a.passed? := by
  let members : List (String × Json) :=
    [("id", encode a.id), ("arg1", encode a.left), ("arg2", encode a.right),
    ("operation", encode a.operation), ("operation_time", encode a.duration)]
  let r : Json.Record := ⟨true, members⟩
  have hr : (Json.record members).record? ["id", "arg1", "arg2", "operation", "operation_time"] =
      some r :=
    Json.record?_record rfl
  have hid : r.required? "id" decode? = some a.id := decode?_encode_id a.id
  have hleft : r.required? "arg1" decode? = Json.passed? a.left := rfl
  have hright : r.required? "arg2" decode? = Json.passed? a.right := rfl
  have hop : r.required? "operation" decode? = some a.operation :=
    decode?_encode_operation a.operation
  have htime : r.required? "operation_time" decode? = some a.duration :=
    decode?_encode_duration a.duration
  show (do
    let r ← (Json.record members).record? ["id", "arg1", "arg2", "operation", "operation_time"]
    return ⟨← r.required? "id" decode?, ← r.required? "arg1" decode?, ← r.required? "arg2" decode?,
      ← r.required? "operation" decode?, ← r.required? "operation_time" decode?⟩) = a.passed?
  simp only [hr, Option.bind_eq_bind, Option.bind_some, hid, hleft, hright, hop, htime]
  rfl

theorem regular_assignment (a : Assignment) : (encode a).Regular := by
  refine Json.regular_record fun m hm => ?_
  simp only [List.mem_cons, List.not_mem_nil, or_false] at hm
  rcases hm with rfl | rfl | rfl | rfl | rfl
  · exact .string _
  · exact Json.regular_ofFloat a.left
  · exact Json.regular_ofFloat a.right
  · exact .string _
  · exact Json.regular_ofUInt64 a.duration

theorem read?_assignmentReply (a : Assignment) :
    (read? (write (AssignmentReply.mk (some a))) : Option AssignmentReply) = a.passed?.map fun a =>
      ⟨some a⟩ := by
  let members : List (String × Json) := [("task", encode a)]
  have hr : (Json.record members).record? ["task"] = some ⟨true, members⟩ := Json.record?_record rfl
  have hregular : (encode (AssignmentReply.mk (some a))).Regular :=
    Json.regular_record fun m hm => by
      rw [List.mem_singleton.1 hm]
      exact regular_assignment a
  rw [read?_write hregular]
  show (do
    let r ← (Json.record members).record? ["task"]
    return ⟨← r.defaulted? "task" decode? none⟩ : Option AssignmentReply) = _
  have htask : (Json.Record.mk true members).defaulted? "task" decode? none =
      a.passed?.map some := by
    rw [← decode?_encode_assignment]
    rfl
  simp only [hr, Option.bind_eq_bind, Option.bind_some, htask]
  cases a.passed? <;> rfl

/-! ## Results -/

theorem decode?_encode_failed (id : TaskId) (message : String) :
    decode? (encode (TaskResult.failed id message)) = some (TaskResult.failed id message) := by
  let members : List (String × Json) := [("id", encode id), ("error", encode message)]
  let r : Json.Record := ⟨true, members⟩
  have hr : (Json.record members).record? ["id", "result", "error"] = some r :=
    Json.record?_record rfl
  have hid : r.required? "id" decode? = some id := decode?_encode_id id
  have hresult : (r.defaulted? "result" decode? none : Option (Option Float)) = some none := rfl
  have herror : r.defaulted? "error" decode? none = some (some message) := rfl
  show (do
    let r ← (Json.record members).record? ["id", "result", "error"]
    return ⟨← r.required? "id" decode?, ← r.defaulted? "result" decode? none,
      ← r.defaulted? "error" decode? none⟩ : Option TaskResult) = _
  simp only [hr, Option.bind_eq_bind, Option.bind_some, hid, hresult, herror]
  rfl

theorem decode?_encode_completed (id : TaskId) (v : Float) :
    decode? (encode (TaskResult.completed id v)) =
      (Json.nullable? Json.toFloat? (Json.ofFloat v)).map (TaskResult.mk id · none) := by
  let members : List (String × Json) := [("id", encode id), ("result", encode v)]
  let r : Json.Record := ⟨true, members⟩
  have hr : (Json.record members).record? ["id", "result", "error"] = some r :=
    Json.record?_record rfl
  have hid : r.required? "id" decode? = some id := decode?_encode_id id
  have hresult : (r.defaulted? "result" decode? none : Option (Option Float)) =
      Json.nullable? Json.toFloat? (Json.ofFloat v) := rfl
  have herror : (r.defaulted? "error" decode? none : Option (Option String)) = some none := rfl
  show (do
    let r ← (Json.record members).record? ["id", "result", "error"]
    return ⟨← r.required? "id" decode?, ← r.defaulted? "result" decode? none,
      ← r.defaulted? "error" decode? none⟩ : Option TaskResult) = _
  simp only [hr, Option.bind_eq_bind, Option.bind_some, hid, hresult, herror]
  cases Json.nullable? Json.toFloat? (Json.ofFloat v) <;> rfl

theorem nullable?_ofFloat (v : Float) : Json.nullable? Json.toFloat? (Json.ofFloat v) =
    (Json.passed? v).map some ∨
    Json.passed? v = none ∧ Json.nullable? Json.toFloat? (Json.ofFloat v) = some none := by
  unfold Json.passed?
  rcases Json.ofFloat_eq v with h | ⟨n, -, h⟩
  · -- `null`, the text of a number that is not finite, is read as no result
    rw [h]
    exact .inr ⟨rfl, rfl⟩
  · rw [h]
    exact .inl rfl

theorem decode?_encode_completed_of_passed (id : TaskId) {v w : Float}
    (h : Json.passed? v = some w) :
    decode? (encode (TaskResult.completed id v)) = some (TaskResult.completed id w) := by
  rw [decode?_encode_completed]
  rcases nullable?_ofFloat v with e | ⟨e, -⟩
  · rw [e, h]
    rfl
  · rw [h] at e
    cases e

theorem regular_result (r : TaskResult) : (encode r).Regular := by
  refine Json.regular_record fun m hm => ?_
  simp only [List.mem_append, List.mem_singleton] at hm
  rcases hm with (rfl | hm) | hm
  · exact .string _
  · cases hr : r.result with
    | none => simp [omittable, hr] at hm
    | some v =>
      simp only [omittable, hr, List.mem_singleton] at hm
      rw [hm]
      exact Json.regular_ofFloat v
  · cases he : r.error with
    | none => simp [omittable, he] at hm
    | some message =>
      simp only [omittable, he, List.mem_singleton] at hm
      rw [hm]
      exact .string _

end Wire

end Reckoner
