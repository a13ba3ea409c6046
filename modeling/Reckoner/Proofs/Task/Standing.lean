import Reckoner.Task.Basic

/-!
# What a task keeps

A task is made with a blueprint that nothing changes. Its standing is the blueprint and what has
been reported: workers that take the task or lose it, and results of other tasks, leave it alone.
-/

namespace Reckoner

namespace Operand

def blank : Operand → Operand
  | literal value => literal value
  | result task _ => result task none

@[simp] theorem blank_blank (o : Operand) : o.blank.blank = o.blank := by cases o <;> rfl

@[simp] theorem source?_blank (o : Operand) : o.blank.source? = o.source? := by cases o <;> rfl

@[simp] theorem blank_resolve (o : Operand) (id : TaskId) (r : Float) :
    (o.resolve id r).blank = o.blank := by
  cases o <;> rfl

@[simp] theorem resolve_resolve (o : Operand) (id : TaskId) (r : Float) :
    (o.resolve id r).resolve id r = o.resolve id r := by
  cases o with
  | literal v => rfl
  | result source v =>
    simp only [resolve]
    split <;> rfl

theorem resolve_eq_result {o : Operand} {id source : TaskId} {r : Float} {v : Option Float}
    (h : o.resolve id r = .result source v) :
    ∃ u, o = .result source u ∧ v = if source = id then some r else u := by
  cases o with
  | literal _ => cases h
  | result s u =>
    simp only [resolve, result.injEq] at h
    obtain ⟨rfl, rfl⟩ := h
    exact ⟨u, rfl, rfl⟩

theorem eq_literal_of_blank {o : Operand} {v : Float} (h : o.blank = .literal v) :
    o = .literal v := by
  cases o with
  | literal _ => exact h
  | result _ _ => cases h

end Operand

namespace Task

def blueprint (t : Task) : Task :=
  { t with
    left := t.left.blank
    right := t.right.blank
    status := .pending
    result := none
    error := none
    startedAt := none
    completedAt := none }

/-- The task without the values in its slots, its times, and whether a worker has it. -/
def standing (t : Task) : Task :=
  { t with
    left := t.left.blank
    right := t.right.blank
    status := if t.status = .processing then .pending else t.status
    startedAt := none
    completedAt := none }

theorem blueprint_standing (t : Task) : t.standing.blueprint = t.blueprint := by
  simp [standing, blueprint]

theorem blueprint_eq_of_standing_eq {t u : Task} (h : t.standing = u.standing) :
    t.blueprint = u.blueprint := by
  rw [← blueprint_standing t, h, blueprint_standing]

theorem completedResult_standing (t : Task) : t.standing.completedResult = t.completedResult := by
  cases h : t.status <;> simp [completedResult, standing, h]

theorem completedResult_eq_of_standing_eq {t u : Task} (h : t.standing = u.standing) :
    t.completedResult = u.completedResult := by
  rw [← completedResult_standing t, h, completedResult_standing]

theorem failed_standing (t : Task) : t.standing.status = .failed ↔ t.status = .failed := by
  cases h : t.status <;> simp [standing, h]

theorem completed_standing (t : Task) : t.standing.status = .completed ↔ t.status = .completed := by
  cases h : t.status <;> simp [standing, h]

theorem failed_iff_of_standing_eq {t u : Task} (h : t.standing = u.standing) :
    t.status = .failed ↔ u.status = .failed := by
  rw [← failed_standing t, h, failed_standing]

theorem isFinished_iff {t : Task} : t.isFinished = true ↔
    t.status = .completed ∨ t.status = .failed := by
  simp [isFinished]

theorem not_pending_of_isFinished {t : Task} (h : t.isFinished = true) : t.status ≠ .pending := by
  rcases isFinished_iff.1 h with hs | hs <;> simp [hs]

theorem isFinished_of_standing_eq {t u : Task} (h : t.standing = u.standing)
    (hu : u.isFinished = true) : t.isFinished = true := by
  rw [isFinished_iff] at hu ⊢
  rw [← completed_standing, ← failed_standing, h, completed_standing, failed_standing]
  exact hu

theorem fields_of_blueprint {t u : Task} (h : t.blueprint = u.blueprint) :
    t.id = u.id ∧ t.owner = u.owner ∧ t.operation = u.operation ∧ t.dependencies = u.dependencies ∧
      t.left.blank = u.left.blank ∧ t.right.blank = u.right.blank := by
  simp only [blueprint, mk.injEq] at h
  obtain ⟨hi, ho, hop, hl, hr, -, -, -, -, hd, -⟩ := h
  exact ⟨hi, ho, hop, hd, hl, hr⟩

theorem sources_of_blueprint {t u : Task} (h : t.blueprint = u.blueprint) :
    t.left.source? = u.left.source? ∧ t.right.source? = u.right.source? := by
  obtain ⟨-, -, -, -, hl, hr⟩ := fields_of_blueprint h
  rw [← t.left.source?_blank, hl, ← t.right.source?_blank, hr]
  simp

theorem owner_eq_of_standing_eq {t u : Task} (h : t.standing = u.standing) : t.owner = u.owner :=
  (fields_of_blueprint (blueprint_eq_of_standing_eq h)).2.1

/-! ## Life of a task -/

section
variable (t : Task) (now : Instant)

@[simp] theorem resolve_resolve (id : TaskId) (r : Float) :
    (t.resolve id r).resolve id r = t.resolve id r := by
  simp [resolve]

@[simp] theorem standing_resolve (id : TaskId) (r : Float) :
    (t.resolve id r).standing = t.standing := by
  simp only [standing, resolve, Operand.blank_resolve]; rfl

theorem standing_start (h : t.status = .pending) : (t.start now).standing = t.standing := by
  simp [standing, start, h]

theorem standing_requeue (h : t.status = .processing) : t.requeue.standing = t.standing := by
  simp [standing, requeue, h]

@[simp] theorem completedResult_complete (r : Float) :
    (t.complete r now).completedResult = some r := by
  simp [completedResult, complete]

@[simp] theorem completedResult_fail (m : String) : (t.fail m now).completedResult = none := by
  simp [completedResult, fail]

end

/-! ## Status and fields -/

structure Coherent (t : Task) : Prop where
  result : t.result.isSome ↔ t.status = .completed
  error : t.error.isSome ↔ t.status = .failed
  completedAt : t.completedAt.isSome ↔ t.status = .completed ∨ t.status = .failed
  pending : t.status = .pending → t.startedAt = none
  processing : t.status = .processing → t.startedAt.isSome
  literal : t.operation = .value → t.status = .completed ∨ t.status = .failed

namespace Coherent

theorem literal_task (owner : ExpressionId) (v : Float) (stamp : Stamp) :
    (Task.literal owner v stamp).Coherent := by
  constructor <;> simp [Task.literal]

theorem composite {op : Operation} (hop : op ≠ .value) (owner : ExpressionId) (l r : Task)
    (duration : UInt64) (stamp : Stamp) :
    (Task.composite owner op l r duration stamp).Coherent := by
  constructor <;> simp [Task.composite, hop]

theorem complete (t : Task) (r : Float) (now : Instant) : (t.complete r now).Coherent := by
  constructor <;> simp [Task.complete]

theorem fail (t : Task) (m : String) (now : Instant) : (t.fail m now).Coherent := by
  constructor <;> simp [Task.fail]

variable {t : Task} (h : t.Coherent)
include h

theorem start (hp : t.status = .pending) (now : Instant) : (t.start now).Coherent := by
  obtain ⟨h₁, h₂, h₃, _, _, h₆⟩ := h
  constructor <;> simp_all [Task.start]

theorem requeue (hp : t.status = .processing) : t.requeue.Coherent := by
  obtain ⟨h₁, h₂, h₃, _, _, h₆⟩ := h
  constructor <;> simp_all [Task.requeue]

theorem resolve (id : TaskId) (r : Float) : (t.resolve id r).Coherent :=
  ⟨h.result, h.error, h.completedAt, h.pending, h.processing, h.literal⟩

theorem completedResult_isSome (hc : t.status = .completed) : t.completedResult.isSome := by
  simpa [completedResult, hc] using h.result.2 hc

theorem completed_iff : t.status = .completed ↔ t.completedResult.isSome := by
  refine ⟨h.completedResult_isSome, fun hs => ?_⟩
  simp only [completedResult] at hs
  split at hs
  · assumption
  · cases hs

end Coherent

end Task

end Reckoner
