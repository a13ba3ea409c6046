import Reckoner.Proofs.Task.Holding

/-!
# Expressions and their tasks

What recomputing makes of an expression, and how its status follows from the tasks of its plan.
-/

namespace Reckoner

def Outcome.Unsettled (tasks : List Task) : Prop :=
  (∀ t ∈ tasks, t.status ≠ .failed) ∧ ∃ t ∈ tasks, t.status ≠ .completed

theorem Outcome.Unsettled.congr {ts us : List Task} (h : Unsettled ts)
    (hs : us.map Task.standing = ts.map Task.standing) : Unsettled us := by
  have hmem : ∀ {P : Task → Prop}, (∀ t, P t.standing ↔ P t) →
      ((∃ u ∈ us, P u) ↔ ∃ t ∈ ts, P t) := by
    intro P hP
    have : (∃ u ∈ us.map Task.standing, P u) ↔ ∃ t ∈ ts.map Task.standing, P t := by rw [hs]
    simpa [hP] using this
  obtain ⟨hf, hw⟩ := h
  refine ⟨fun u hu hfail => ?_, (hmem fun t => not_congr t.completed_standing).2 hw⟩
  obtain ⟨t, ht, hfail⟩ := (hmem (P := fun t => t.status = .failed) fun t => t.failed_standing).1
    ⟨u, hu, hfail⟩
  exact hf t ht hfail

/-- The outcome of the tasks of a plan is final unless they are unsettled. -/
theorem TaskTable.Holds.exists_conclusive {table : TaskTable} {times : OperationTimes}
    {owner : ExpressionId} {stamps : Nat → Stamp} {f : Formula}
    (h : table.Holds times owner stamps f) (hi : table.Indexed) (hc : table.Coherent) :
    ∃ o, Outcome.ofTasks (table.ofOwner owner) = .ok o ∧
      (o = .inProgress → Outcome.Unsettled (table.ofOwner owner)) := by
  rcases Outcome.cases_of_plan h (h.nodup hi) (fun t ht => hc (hi.mem_ofOwner.1 ht).1) with
    ⟨_, -, -, ho⟩ | ⟨hf, hw, ho⟩ | ⟨-, _, _, -, -, ho⟩
  · exact ⟨_, ho, nofun⟩
  · exact ⟨_, ho, fun _ => ⟨hf, hw⟩⟩
  · exact ⟨_, ho, nofun⟩

namespace Expression

structure Coherent (e : Expression) : Prop where
  result : e.result.isSome ↔ e.status = .completed
  error : e.error.isSome ↔ e.status = .failed

def recomputed (e : Expression) (o : Outcome) (now : Instant) : Expression :=
  if e.status.isTerminal then e
  else
    match o with
    | .failed message => e.fail message now
    | .resolved result => e.complete result now
    | .inProgress => e.startComputing now

structure Follows (e : Expression) (tasks : List Task) : Prop where
  started : e.status ≠ .pending
  computing : e.status = .computing →
    (∀ t ∈ tasks, t.status ≠ .failed) ∧ ∃ t ∈ tasks, t.status ≠ .completed

section
variable (e : Expression) (o : Outcome) (now : Instant)

theorem recomputed_of_terminal (h : e.status.isTerminal = true) : e.recomputed o now = e := if_pos h

theorem recomputed_fields : (e.recomputed o now).id = e.id ∧ (e.recomputed o now).text = e.text ∧
    (e.recomputed o now).taskIds = e.taskIds := by
  unfold recomputed
  split
  · exact ⟨rfl, rfl, rfl⟩
  · cases o with
    | failed m => exact ⟨rfl, rfl, rfl⟩
    | resolved r => exact ⟨rfl, rfl, rfl⟩
    | inProgress =>
      simp only [startComputing]
      split <;> exact ⟨rfl, rfl, rfl⟩

theorem terminal_recomputed {o : Outcome} (ho : o ≠ .inProgress) :
    (e.recomputed o now).status.isTerminal = true := by
  unfold recomputed
  split
  · assumption
  · cases o with
    | failed m => rfl
    | resolved r => rfl
    | inProgress => exact absurd rfl ho

theorem createdAt_recomputed : (e.recomputed o now).createdAt = e.createdAt := by
  unfold recomputed
  split
  · rfl
  · cases o with
    | failed m => rfl
    | resolved r => rfl
    | inProgress =>
      simp only [startComputing]
      split <;> rfl

end

namespace Coherent

theorem fail (e : Expression) (m : String) (now : Instant) : (e.fail m now).Coherent := by
  constructor <;> simp [Expression.fail]

variable {e : Expression} (h : e.Coherent)
include h

theorem recomputed (o : Outcome) (now : Instant) : (e.recomputed o now).Coherent := by
  unfold Expression.recomputed
  split
  · exact h
  · cases o with
    | failed m => exact .fail e m now
    | resolved r => constructor <;> simp [Expression.complete]
    | inProgress =>
      simp only [startComputing]
      split
      · rename_i hp
        have hr := h.result
        have he := h.error
        simp only [hp, reduceCtorEq, iff_false, Bool.not_eq_true] at hr he
        constructor <;> simp [hr, he]
      · exact h

end Coherent

theorem follows_recomputed (e : Expression) {table : TaskTable} {times : OperationTimes}
    {owner : ExpressionId} {stamps : Nat → Stamp} {f : Formula}
    (hh : table.Holds times owner stamps f) (hs : table.Sound) {o : Outcome}
    (ho : Outcome.ofTasks (table.ofOwner owner) = .ok o) (now : Instant) :
    (e.recomputed o now).Follows (table.ofOwner owner) := by
  unfold recomputed
  split
  · rename_i ht
    constructor
    · intro hs; rw [hs] at ht; cases ht
    · intro hs; rw [hs] at ht; cases ht
  · rename_i ht
    rcases Outcome.cases_of_plan hh (hh.nodup hs.indexed) (TaskTable.Holds.coherent_of_mem hs)
      with ⟨t, -, -, h⟩ | ⟨hf, hw, h⟩ | ⟨-, t, r, -, -, h⟩
    · cases ho.symm.trans h
      constructor <;> simp [fail]
    · cases ho.symm.trans h
      refine ⟨?_, fun _ => ⟨hf, hw⟩⟩
      simp only [startComputing]
      split
      · simp
      · assumption
    · cases ho.symm.trans h
      constructor <;> simp [complete]

theorem Follows.congr {e : Expression} {ts us : List Task} (h : e.Follows ts)
    (hs : us.map Task.standing = ts.map Task.standing) : e.Follows us :=
  ⟨h.started, fun hc => Outcome.Unsettled.congr (h.computing hc) hs⟩

end Expression

end Reckoner
