import Reckoner.Proofs.Instant.Text
import Reckoner.Proofs.Wire.Message

/-!
# Values that come back

A value is read from its JSON text as it was written, whichever of its members are there. Three
kinds of members can be lost: numbers, which JSON may read as other numbers than it writes, instants
outside of the years that have four digits, and leap seconds behind another second than the last one
of a minute, which come back as the next second.
-/

namespace Reckoner

class Contents (α : Type) where
  numbers : α → List Float
  instants : α → List Instant := fun _ => []

namespace Contents

instance : Contents Operand where
  numbers
    | .literal value => [value]
    | .result _ value => value.toList

instance : Contents Task where
  numbers t := numbers t.left ++ numbers t.right ++ t.result.toList
  instants t := t.createdAt :: (t.startedAt.toList ++ t.completedAt.toList)

instance : Contents Expression where
  numbers e := e.result.toList
  instants e := [e.createdAt, e.updatedAt]

instance : Contents ExpressionSummary := ⟨fun m => m.result.toList, fun _ => []⟩

instance : Contents ExpressionListing := ⟨fun m => m.expressions.flatMap numbers, fun _ => []⟩

instance : Contents ExpressionDetail := ⟨fun m => numbers m.expression, fun _ => []⟩

instance : Contents Assignment := ⟨fun a => [a.left, a.right], fun _ => []⟩

instance : Contents AssignmentReply := ⟨fun m => m.task.toList.flatMap numbers, fun _ => []⟩

instance : Contents TaskResult := ⟨fun r => r.result.toList, fun _ => []⟩

end Contents

open Contents

/-! ## Time stamps that come back as others -/

def Task.reread (t : Task) : Task :=
  { t with
    createdAt := t.createdAt.reread
    startedAt := t.startedAt.map Instant.reread
    completedAt := t.completedAt.map Instant.reread }

def Expression.reread (e : Expression) : Expression :=
  { e with createdAt := e.createdAt.reread, updatedAt := e.updatedAt.reread }

theorem map_reread_eq_iff {o : Option Instant} : o.map Instant.reread = o ↔
    ∀ i ∈ o.toList, i.Placed := by
  cases o with
  | none => simp
  | some i => simp [Instant.reread_eq_iff]

theorem Task.reread_eq_iff {t : Task} : t.reread = t ↔ ∀ i ∈ instants t, i.Placed := by
  cases t
  simp only [Task.reread, Task.mk.injEq, instants, List.forall_mem_cons, List.forall_mem_append,
    Instant.reread_eq_iff, map_reread_eq_iff, true_and]

theorem Expression.reread_eq_iff {e : Expression} : e.reread = e ↔ ∀ i ∈ instants e, i.Placed := by
  cases e
  simp only [Expression.reread, Expression.mk.injEq, instants, List.forall_mem_cons,
    List.not_mem_nil,
    Instant.reread_eq_iff, false_implies, implies_true, and_true, true_and]

namespace Wire

/--
The value has finite numbers, each of which JSON reads as it writes it, and years of four digits.
-/
structure Sendable {α : Type} [Contents α] (a : α) : Prop where
  finite : ∀ x ∈ numbers a, x.isFinite = true
  passed : ∀ x ∈ numbers a, x.isFinite = true → Json.passed? x = some x
  shown : ∀ i ∈ instants a, i.Shown
  year : ∀ i ∈ instants a, 0 ≤ i.date.year ∧ i.date.year ≤ 9999

theorem Sendable.passes {α : Type} [Contents α] {a : α} (h : Sendable a) {x : Float}
    (hx : x ∈ numbers a) :
    Json.passed? x = some x := h.passed x hx (h.finite x hx)

structure Arrives {α : Type} [Wire α] (a b : α) : Prop where
  regular : (encode a).Regular
  decode : decode? (encode a) = some b

abbrev Lossless {α : Type} [Wire α] (a : α) : Prop := Arrives a a

section
variable {α β : Type} [Wire α]

theorem Arrives.read {a b : α} (h : Arrives a b) : read? (write a) = some b := by
  rw [read?_write h.regular, h.decode]

omit [Wire α] in
theorem bind_of_eq_some {x : Option β} {b : β} {f : β → Option α} {a : α} (hx : x = some b)
    (hf : f b = some a) : (x >>= f) = some a := by
  rw [hx]
  exact hf

variable {r : Json.Record} {name : String}

theorem Arrives.required {a b : α} (h : Arrives a b) (hget : r.get? name = some (encode a)) :
    r.required? name decode? = some b := by
  rw [Json.Record.required?, hget]
  exact h.decode

theorem Arrives.optional {o p : Option α} (h : Arrives o p) (hget : r.get? name = some (encode o)) :
    r.optional? name decode? = some p := by
  rw [Json.Record.optional?, hget]
  exact h.decode

theorem Arrives.defaulted {a b : α} (h : Arrives a b) (hget : r.get? name = some (encode a))
    (default : α) : r.defaulted? name decode? default = some b := by
  rw [Json.Record.defaulted?, hget]
  exact h.decode

theorem Lossless.omitted {o : Option α} (h : Lossless o) (hget : r.get? name = o.map encode) :
    r.defaulted? name decode? none = some o := by
  rw [Json.Record.defaulted?, hget]
  cases o with
  | none => rfl
  | some a => exact h.decode

/-! ## Plain values -/

theorem lossless_string (s : String) : Lossless s := ⟨.string _, rfl⟩

theorem lossless_id {kind : IdKind} (id : Id kind) : Lossless id :=
  ⟨.string _, decode?_encode_id id⟩

theorem lossless_duration (n : UInt64) : Lossless n :=
  ⟨Json.regular_ofUInt64 n, decode?_encode_duration n⟩

theorem lossless_operation (op : Operation) : Lossless op :=
  ⟨.string _, decode?_encode_operation op⟩

theorem lossless_taskStatus (s : TaskStatus) : Lossless s := ⟨.string _, by cases s <;> rfl⟩

theorem lossless_expressionStatus (s : ExpressionStatus) : Lossless s :=
  ⟨.string _, by cases s <;> rfl⟩

theorem lossless_number {x : Float} (h : Json.passed? x = some x) : Lossless x :=
  ⟨Json.regular_ofFloat x, h⟩

theorem arrives_instant {i : Instant} (hi : i.Shown)
    (hyear : 0 ≤ i.date.year ∧ i.date.year ≤ 9999) : Arrives i i.reread := by
  refine ⟨.string _, ?_⟩
  show (some i.text).bind Instant.parse? = some i.reread
  rw [Option.bind_some, Instant.parse?_text hi hyear]

/-- `null` stands for a value that is not there, and for no other. -/
theorem arrives_option {o : Option α} {f : α → α} (hnull : (decode? .null : Option α) = none)
    (h : ∀ a ∈ o, Arrives a (f a)) : Arrives o (o.map f) := by
  cases o with
  | none => exact ⟨.null, rfl⟩
  | some a =>
    have ha := h a rfl
    have hne : encode a ≠ .null := by
      intro e
      have hd := ha.decode
      rw [e, hnull] at hd
      cases hd
    refine ⟨ha.regular, ?_⟩
    show Json.nullable? decode? (encode a) = some (some (f a))
    unfold Json.nullable?
    split
    · rename_i e
      exact absurd e hne
    · rw [ha.decode]
      rfl

theorem lossless_option {o : Option α} (hnull : (decode? .null : Option α) = none)
    (h : ∀ a ∈ o, Lossless a) : Lossless o := by
  have ho : Arrives o (o.map id) := arrives_option hnull h
  rwa [Option.map_id, id] at ho

theorem lossless_list {xs : List α} (h : ∀ a ∈ xs, Lossless a) : Lossless xs := by
  refine ⟨.array fun j hj => ?_, ?_⟩
  · obtain ⟨a, ha, rfl⟩ := List.mem_map.1 hj
    exact (h a ha).regular
  · show (xs.map encode).mapM decode? = some xs
    induction xs with
    | nil => rfl
    | cons a xs ih =>
      rw [List.map_cons, List.mapM_cons, (h a (by simp)).decode, ih fun b hb => h b (by simp [hb])]
      rfl

theorem lossless_message (o : Option String) : Lossless o :=
  lossless_option rfl fun s _ => lossless_string s

theorem lossless_result {o : Option Float} (h : ∀ x ∈ o.toList, Json.passed? x = some x) :
    Lossless o :=
  lossless_option rfl fun x hx => lossless_number (h x (by simpa using hx))

theorem arrives_time {o : Option Instant} (h : ∀ i ∈ o.toList, Arrives i i.reread) :
    Arrives o (o.map Instant.reread) :=
  arrives_option rfl fun i hi => h i (by simpa using hi)

theorem lossless_ids (ids : List TaskId) : Lossless ids := lossless_list fun id _ => lossless_id id

theorem regular_omittable {name : String} {o : Option α} (h : Lossless o) :
    ∀ m ∈ omittable name o, m.2.Regular := by
  intro m hm
  cases o with
  | none => cases hm
  | some a =>
    rw [List.mem_singleton.1 hm]
    exact h.regular

end

/-! ## Operands -/

theorem isSound_number {x : Float} (h : Json.passed? x = some x) (room : Nat) :
    isSound room (encode x) = true := by
  have hp : Json.toFloat? (Json.ofFloat x) = some x := h
  show isSound room (Json.ofFloat x) = true
  rcases Json.ofFloat_eq x with hn | ⟨n, -, hn⟩
  · rw [hn]
    rfl
  · rw [hn] at hp ⊢
    show (Json.numberOf? n).isSome = true
    rw [show Json.numberOf? n = some x from hp]
    rfl

theorem operand?_encode {o : Operand} (h : ∀ x ∈ numbers o, Json.passed? x = some x) {room : Nat}
    (hr : 0 < room) : operand? room (encode o) = some o := by
  obtain ⟨room, rfl⟩ : ∃ n, room = n + 1 := ⟨room - 1, by omega⟩
  unfold operand?
  cases o with
  | literal value =>
    have hv : Json.passed? value = some value := h value (List.mem_singleton.2 rfl)
    have hsound : isSound (room + 1) (encode (Operand.literal value)) = true := by
      show (true && (isSound room (encode value) && true)) = true
      rw [isSound_number hv]
      rfl
    have hkind : kind? (encode (Operand.literal value)) =
        some ("literal", .record [("value", encode value)]) := rfl
    rw [if_pos hsound, hkind]
    exact bind_of_eq_some (Json.record?_record rfl) <|
      bind_of_eq_some ((lossless_number hv).required rfl) rfl
  | result task value =>
    have hvalue : Lossless value := lossless_result h
    have hsound : isSound (room + 1) (encode (Operand.result task value)) = true := by
      show (true && (isSound room (encode value) && true)) = true
      cases value with
      | none => rfl
      | some v =>
        have hv : Json.passed? v = some v := h v (List.mem_singleton.2 rfl)
        rw [show encode (some v) = encode v from rfl, isSound_number hv]
        rfl
    have hkind : kind? (encode (Operand.result task value)) =
        some ("task", .record [("id", encode task), ("value", encode value)]) := rfl
    rw [if_pos hsound, hkind]
    exact bind_of_eq_some (Json.record?_record rfl) <|
      bind_of_eq_some ((lossless_id task).required rfl) <|
      bind_of_eq_some (hvalue.optional rfl) rfl

theorem regular_operand {o : Operand} (h : ∀ x ∈ numbers o, Json.passed? x = some x) :
    (encode o).Regular := by
  cases o with
  | literal value =>
    refine Json.regular_record fun m hm => ?_
    simp only [List.mem_cons, List.not_mem_nil, or_false] at hm
    rcases hm with rfl | rfl
    · exact .string _
    · exact Json.regular_ofFloat value
  | result task value =>
    refine Json.regular_record fun m hm => ?_
    simp only [List.mem_cons, List.not_mem_nil, or_false] at hm
    rcases hm with rfl | rfl | rfl
    · exact .string _
    · exact (lossless_id task).regular
    · exact (lossless_result h).regular

/-! ## Records -/

theorem Sendable.instant {α : Type} [Contents α] {a : α} (h : Sendable a) {i : Instant}
    (hi : i ∈ instants a) :
    Arrives i i.reread := arrives_instant (h.shown i hi) (h.year i hi)

theorem arrives_task {t : Task} (h : Sendable t) : Arrives t t.reread := by
  have hleft : ∀ x ∈ numbers t.left, Json.passed? x = some x :=
    fun x hx => h.passes (List.mem_append_left _ (List.mem_append_left _ hx))
  have hright : ∀ x ∈ numbers t.right, Json.passed? x = some x :=
    fun x hx => h.passes (List.mem_append_left _ (List.mem_append_right _ hx))
  have hresult : Lossless t.result := lossless_result fun x hx =>
    h.passes (List.mem_append_right _ hx)
  have hcreated : Arrives t.createdAt t.createdAt.reread := h.instant List.mem_cons_self
  have hstarted : Arrives t.startedAt (t.startedAt.map Instant.reread) :=
    arrives_time fun i hi => h.instant (List.mem_cons_of_mem _ (List.mem_append_left _ hi))
  have hcompleted : Arrives t.completedAt (t.completedAt.map Instant.reread) :=
    arrives_time fun i hi => h.instant (List.mem_cons_of_mem _ (List.mem_append_right _ hi))
  refine ⟨Json.regular_record fun m hm => ?_, ?_⟩
  · simp only [List.mem_cons, List.not_mem_nil, or_false] at hm
    rcases hm with rfl | rfl | rfl | rfl | rfl | rfl | rfl | rfl | rfl | rfl | rfl | rfl | rfl
    · exact (lossless_id _).regular
    · exact (lossless_id _).regular
    · exact (lossless_operation _).regular
    · exact regular_operand hleft
    · exact regular_operand hright
    · exact (lossless_taskStatus _).regular
    · exact hresult.regular
    · exact (lossless_message _).regular
    · exact (lossless_duration _).regular
    · exact (lossless_ids _).regular
    · exact hcreated.regular
    · exact hstarted.regular
    · exact hcompleted.regular
  · have hl : operand? (maxLevels - 1) (encode t.left) = some t.left :=
      operand?_encode hleft (by decide)
    have hr : operand? (maxLevels - 1) (encode t.right) = some t.right :=
      operand?_encode hright (by decide)
    exact bind_of_eq_some (Json.record?_record rfl) <|
      bind_of_eq_some ((lossless_id t.id).required rfl) <|
      bind_of_eq_some ((lossless_id t.owner).required rfl) <|
      bind_of_eq_some ((lossless_operation t.operation).required rfl) <|
      bind_of_eq_some hl <| bind_of_eq_some hr <|
      bind_of_eq_some ((lossless_taskStatus t.status).required rfl) <|
      bind_of_eq_some (hresult.optional rfl) <|
      bind_of_eq_some ((lossless_message t.error).optional rfl) <|
      bind_of_eq_some ((lossless_duration t.duration).required rfl) <|
      bind_of_eq_some ((lossless_ids t.dependencies).required rfl) <|
      bind_of_eq_some (hcreated.required rfl) <|
      bind_of_eq_some (hstarted.optional rfl) <| bind_of_eq_some (hcompleted.optional rfl) rfl

theorem arrives_expression {e : Expression} (h : Sendable e) : Arrives e e.reread := by
  have hresult : Lossless e.result := lossless_result fun x hx => h.passes hx
  have hcreated : Arrives e.createdAt e.createdAt.reread := h.instant List.mem_cons_self
  have hupdated : Arrives e.updatedAt e.updatedAt.reread :=
    h.instant (List.mem_cons_of_mem _ List.mem_cons_self)
  refine ⟨Json.regular_record fun m hm => ?_, ?_⟩
  · simp only [List.mem_cons, List.not_mem_nil, or_false] at hm
    rcases hm with rfl | rfl | rfl | rfl | rfl | rfl | rfl | rfl
    · exact (lossless_id _).regular
    · exact (lossless_string _).regular
    · exact (lossless_expressionStatus _).regular
    · exact hresult.regular
    · exact (lossless_message _).regular
    · exact hcreated.regular
    · exact hupdated.regular
    · exact (lossless_ids _).regular
  · exact bind_of_eq_some (Json.record?_record rfl) <|
      bind_of_eq_some ((lossless_id e.id).required rfl) <|
      bind_of_eq_some ((lossless_string e.text).required rfl) <|
      bind_of_eq_some ((lossless_expressionStatus e.status).required rfl) <|
      bind_of_eq_some (hresult.optional rfl) <|
      bind_of_eq_some ((lossless_message e.error).optional rfl) <|
      bind_of_eq_some (hcreated.required rfl) <| bind_of_eq_some (hupdated.required rfl) <|
      bind_of_eq_some ((lossless_ids e.taskIds).defaulted rfl []) rfl

/-- A record with one member. -/
theorem regular_single {name : String} {j : Json} (h : j.Regular) :
    (Json.record [(name, j)]).Regular :=
  Json.regular_record fun m hm => by
    rw [List.mem_singleton.1 hm]
    exact h

theorem lossless_submission (m : Submission) : Lossless m :=
  ⟨regular_single (lossless_string _).regular, bind_of_eq_some (Json.record?_record rfl) <|
    bind_of_eq_some ((lossless_string m.text).defaulted rfl "") rfl⟩

theorem lossless_receipt (m : Receipt) : Lossless m :=
  ⟨regular_single (lossless_id _).regular, bind_of_eq_some (Json.record?_record rfl) <|
    bind_of_eq_some ((lossless_id m.id).required rfl) rfl⟩

theorem lossless_acknowledgement (m : Acknowledgement) : Lossless m :=
  ⟨regular_single (lossless_string _).regular, bind_of_eq_some (Json.record?_record rfl) <|
    bind_of_eq_some ((lossless_string m.status).required rfl) rfl⟩

theorem lossless_refusal (m : Refusal) : Lossless m :=
  ⟨regular_single (lossless_string _).regular, bind_of_eq_some (Json.record?_record rfl) <|
    bind_of_eq_some ((lossless_string m.error).required rfl) rfl⟩

theorem lossless_summary {m : ExpressionSummary} (h : ∀ x ∈ numbers m, Json.passed? x = some x) :
    Lossless m := by
  obtain ⟨id, status, result, error⟩ := m
  have hresult : Lossless result := lossless_result h
  have herror : Lossless error := lossless_message error
  refine ⟨Json.regular_record fun m hm => ?_, ?_⟩
  · simp only [List.mem_append, List.mem_cons, List.not_mem_nil, or_false] at hm
    rcases hm with ((rfl | rfl) | hm) | hm
    · exact (lossless_id _).regular
    · exact (lossless_expressionStatus _).regular
    · exact regular_omittable hresult m hm
    · exact regular_omittable herror m hm
  · exact bind_of_eq_some (Json.record?_record (by cases result <;> cases error <;> rfl)) <|
      bind_of_eq_some ((lossless_id id).required rfl) <|
      bind_of_eq_some ((lossless_expressionStatus status).required rfl) <|
      bind_of_eq_some (hresult.omitted (by cases result <;> cases error <;> rfl)) <|
      bind_of_eq_some (herror.omitted (by cases result <;> cases error <;> rfl)) rfl

theorem lossless_listing {m : ExpressionListing} (h : ∀ x ∈ numbers m, Json.passed? x = some x) :
    Lossless m := by
  have hall : Lossless m.expressions :=
    lossless_list fun e he => lossless_summary fun x hx => h x (List.mem_flatMap.2 ⟨e, he, hx⟩)
  exact ⟨regular_single hall.regular, bind_of_eq_some (Json.record?_record rfl) <|
    bind_of_eq_some (hall.required rfl) rfl⟩

theorem lossless_detail {m : ExpressionDetail} (h : ∀ x ∈ numbers m, Json.passed? x = some x) :
    Lossless m := by
  have he : Lossless m.expression := lossless_summary h
  exact ⟨regular_single he.regular, bind_of_eq_some (Json.record?_record rfl) <|
    bind_of_eq_some (he.required rfl) rfl⟩

theorem lossless_assignment {a : Assignment} (h : ∀ x ∈ numbers a, Json.passed? x = some x) :
    Lossless a := by
  have hleft : Json.passed? a.left = some a.left := h _ List.mem_cons_self
  have hright : Json.passed? a.right = some a.right :=
    h _ (List.mem_cons_of_mem _ List.mem_cons_self)
  refine ⟨regular_assignment a, ?_⟩
  rw [decode?_encode_assignment, Assignment.passed?, hleft, hright]
  rfl

theorem lossless_reply {m : AssignmentReply} (h : ∀ x ∈ numbers m, Json.passed? x = some x) :
    Lossless m := by
  obtain ⟨task⟩ := m
  have htask : Lossless task := lossless_option rfl fun a ha =>
    lossless_assignment fun x hx => h x (List.mem_flatMap.2 ⟨a, Option.mem_toList.2 ha, hx⟩)
  refine ⟨Json.regular_record (regular_omittable htask), ?_⟩
  exact bind_of_eq_some (Json.record?_record (by cases task <;> rfl)) <|
    bind_of_eq_some (htask.omitted (by cases task <;> rfl)) rfl

theorem lossless_taskResult {m : TaskResult} (h : ∀ x ∈ numbers m, Json.passed? x = some x) :
    Lossless m := by
  obtain ⟨id, result, error⟩ := m
  have hresult : Lossless result := lossless_result h
  have herror : Lossless error := lossless_message error
  refine ⟨regular_result _, ?_⟩
  exact bind_of_eq_some (Json.record?_record (by cases result <;> cases error <;> rfl)) <|
    bind_of_eq_some ((lossless_id id).required rfl) <|
    bind_of_eq_some (hresult.omitted (by cases result <;> cases error <;> rfl)) <|
    bind_of_eq_some (herror.omitted (by cases result <;> cases error <;> rfl)) rfl

/--
What is written can be read, and it is read as what was written, a task or an expression if its leap
seconds stand behind the last second of a minute.
-/
theorem read?_write_eq_some_iff :
    (∀ t : Task, Sendable t → (read? (write t) = some t ↔ ∀ i ∈ instants t, i.Placed)) ∧
    (∀ e : Expression, Sendable e → (read? (write e) = some e ↔ ∀ i ∈ instants e, i.Placed)) ∧
    (∀ m : Submission, read? (write m) = some m) ∧
    (∀ m : Receipt, read? (write m) = some m) ∧
    (∀ m : ExpressionSummary, Sendable m → read? (write m) = some m) ∧
    (∀ m : ExpressionListing, Sendable m → read? (write m) = some m) ∧
    (∀ m : ExpressionDetail, Sendable m → read? (write m) = some m) ∧
    (∀ a : Assignment, Sendable a → read? (write a) = some a) ∧
    (∀ m : AssignmentReply, Sendable m → read? (write m) = some m) ∧
    (∀ r : TaskResult, Sendable r → read? (write r) = some r) ∧
    (∀ m : Acknowledgement, read? (write m) = some m) ∧
    (∀ m : Refusal, read? (write m) = some m) := by
  refine ⟨?_, ?_, ?_, ?_, ?_, ?_, ?_, ?_, ?_, ?_, ?_, ?_⟩
  · intro t h
    rw [(arrives_task h).read, Option.some_inj, Task.reread_eq_iff]
  · intro e h
    rw [(arrives_expression h).read, Option.some_inj, Expression.reread_eq_iff]
  · exact fun m => (lossless_submission m).read
  · exact fun m => (lossless_receipt m).read
  · exact fun m h => (lossless_summary fun x => h.passes).read
  · exact fun m h => (lossless_listing fun x => h.passes).read
  · exact fun m h => (lossless_detail fun x => h.passes).read
  · exact fun a h => (lossless_assignment fun x => h.passes).read
  · exact fun m h => (lossless_reply fun x => h.passes).read
  · exact fun r h => (lossless_taskResult fun x => h.passes).read
  · exact fun m => (lossless_acknowledgement m).read
  · exact fun m => (lossless_refusal m).read

def failedDivision (createdAt : Instant) (startedAt : Option Instant) : Task :=
  { id := Id.ofNat 7
    owner := Id.ofNat 1
    operation := .division
    left := .literal (-0.1)
    right := .result (Id.ofNat 3) none
    status := .failed
    result := some 2.5e-7
    error := some "\\ \"÷\"\n"
    duration := 18446744073709551615
    dependencies := [Id.ofNat 3]
    createdAt := createdAt
    startedAt := startedAt
    completedAt := none }

theorem sendable_failedDivision {createdAt : Instant} {startedAt : Option Instant}
    (hshown : ∀ i ∈ createdAt :: startedAt.toList, i.Shown)
    (hyear : ∀ i ∈ createdAt :: startedAt.toList, 0 ≤ i.date.year ∧ i.date.year ≤ 9999) :
    Sendable (failedDivision createdAt startedAt) where
  finite := by
    show ∀ x ∈ [-0.1, 2.5e-7], x.isFinite = true
    decide
  passed := by
    show ∀ x ∈ [-0.1, 2.5e-7], x.isFinite = true → Json.passed? x = some x
    decide +kernel
  shown := by simpa [instants, failedDivision] using hshown
  year := by simpa [instants, failedDivision] using hyear

/-- The division has been started in the leap second at the end of 2016. -/
theorem read?_write_failedDivision :
    let t := failedDivision ⟨1709251199, 999999999⟩ (some ⟨1483228799, 1500000000⟩)
    Sendable t ∧ (∀ i ∈ instants t, i.Placed) ∧ read? (write t) = some t := by
  intro t
  have h : Sendable t := by
    refine sendable_failedDivision (fun i hi => ?_) (by decide)
    simp only [Option.toList_some, List.mem_cons, List.not_mem_nil, or_false] at hi
    rcases hi with rfl | rfl
    · exact ⟨by decide, by decide⟩
    · exact ⟨by decide, by decide⟩
  have hplaced : ∀ i ∈ instants t, i.Placed := by decide
  exact ⟨h, hplaced, (read?_write_eq_some_iff.1 t h).2 hplaced⟩

/--
A division that has been created in a leap second behind the first second of 1970 comes back as one
of the second after it. A number comes back as another one if the numeral of it is read so.
-/
theorem leap_second_and_number_moved :
    (let t := failedDivision ⟨0, 1500000000⟩ none
     Sendable t ∧ read? (write t) = some (failedDivision ⟨1, 500000000⟩ none) ∧
     read? (write t) ≠ some t) ∧
    (let r := TaskResult.completed (Id.ofNat 1) 51.248178375505404
     (∀ x ∈ numbers r, x.isFinite = true) ∧ instants r = [] ∧
       read? (write r) = some (TaskResult.completed (Id.ofNat 1) 51.24817837550541) ∧
       read? (write r) ≠ some r) := by
  refine ⟨?_, ?_⟩
  · intro t
    have h : Sendable t := by
      refine sendable_failedDivision (fun i hi => ?_) (by decide)
      rw [List.mem_singleton.1 hi]
      exact ⟨by decide, by decide⟩
    have hread : read? (write t) = some (failedDivision ⟨1, 500000000⟩ none) := by
      rw [(arrives_task h).read]
      decide
    refine ⟨h, hread, ?_⟩
    rw [hread]
    decide
  · intro r
    have hnumber : Json.passed? 51.248178375505404 = some 51.24817837550541 := by decide +kernel
    have hread : read? (write r) = some (TaskResult.completed (Id.ofNat 1) 51.24817837550541) := by
      rw [read?_write (regular_result r), decode?_encode_completed_of_passed _ hnumber]
    refine ⟨by decide, rfl, hread, ?_⟩
    rw [hread]
    decide

end Wire

end Reckoner
