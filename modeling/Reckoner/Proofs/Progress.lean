import Reckoner.Proofs.Coordinator.Sound

/-!
# Progress

No expression is forgotten: as long as it is not final, it owns a task that a worker has or that can
be handed to one. For some task of it is not completed and none has failed, and below a task that is
not completed there is always one whose dependencies are.
-/

namespace Reckoner

namespace TaskTable

variable {table : TaskTable} {owner : ExpressionId}

theorem Sound.isEligible_of_completed (h : table.Sound) {i : TaskId} {t : Task}
    (ht : table.get? i = some t) (hp : t.status = .pending) {l r : TaskId}
    (hl : t.left.source? = some l) (hr : t.right.source? = some r) (hd : t.dependencies = [l, r])
    {u v : Task} (hu : table.get? l = some u) (huc : u.status = .completed)
    (hv : table.get? r = some v) (hvc : v.status = .completed) : table.isEligible t = true := by
  obtain ⟨a, ha⟩ := Option.isSome_iff_exists.1 ((h.coherent hu).completedResult_isSome huc)
  obtain ⟨b, hb⟩ := Option.isSome_iff_exists.1 ((h.coherent hv).completedResult_isSome hvc)
  obtain ⟨hfl, hfr⟩ := h.filled ht
  have hla : t.left.value? = some a := hfl.value_eq hl (by rw [resultOf, hu]; exact ha)
  have hrb : t.right.value? = some b := hfr.value_eq hr (by rw [resultOf, hv]; exact hb)
  refine isEligible_iff.2 ⟨hp, fun d hm => ?_, a, b, ?_⟩
  · rw [hd] at hm
    rcases List.mem_pair.1 hm with rfl | rfl
    · exact ⟨u, hu, huc⟩
    · exact ⟨v, hv, hvc⟩
  · rw [Task.operandValues, hla, hrb]
    rfl

theorem WorksOut.exists_active (h : table.Sound)
    (hf : ∀ ⦃i t⦄, table.get? i = some t → t.owner = owner → t.status ≠ .failed) {id : TaskId}
    {f : Formula} (hw : table.WorksOut owner id f) :
    ∀ {t}, table.get? id = some t → t.status ≠ .completed →
      ∃ i u, table.get? i = some u ∧ u.owner = owner ∧
        (u.status = .processing ∨ table.isEligible u = true) := by
  induction hw with
  | number ht ho hop _ =>
    intro t ht' hc
    obtain rfl := Option.some.inj (ht'.symm.trans ht)
    rcases (h.coherent ht).literal hop with hs | hs
    · exact absurd hs hc
    · exact absurd hs (hf ht ho)
  | binary op ht ho hop hl hr hd hwl hwr ihl ihr =>
    intro t ht' hc
    obtain rfl := Option.some.inj (ht'.symm.trans ht)
    obtain ⟨u, hu, -⟩ := hwl.exists_get?
    obtain ⟨v, hv, -⟩ := hwr.exists_get?
    -- the first dependency that is not completed leads down; if both are, the task itself is active
    by_cases huc : u.status = .completed
    · by_cases hvc : v.status = .completed
      · cases hs : t.status with
        | pending =>
          exact ⟨_, t, ht, ho, .inr (h.isEligible_of_completed ht hs hl hr hd hu huc hv hvc)⟩
        | processing => exact ⟨_, t, ht, ho, .inl hs⟩
        | completed => exact absurd hs hc
        | failed => exact absurd hs (hf ht ho)
      · exact ihr hv hvc
    · exact ihl hu huc

end TaskTable

namespace Store

variable {times : OperationTimes} {s : Store}

theorem Sound.exists_active (h : s.Sound times) {i : ExpressionId} {e : Expression}
    (he : s.expressions[i]? = some e) (hs : e.status.isTerminal = false) :
    ∃ t ∈ s.tasksOf e.id, t.id ∈ e.taskIds ∧
      (t.status = .processing ∨ s.tasks.isEligible t = true) := by
  rcases h.filed he with hr | ⟨f, stamps, ha⟩
  · rw [hr.status] at hs
    cases hs
  · have hcomputing : e.status = .computing := by
      cases hst : e.status with
      | pending => exact absurd hst ha.follows.started
      | computing => rfl
      | completed => rw [hst] at hs; cases hs
      | failed => rw [hst] at hs; cases hs
    obtain ⟨hf, t, ht, hc⟩ := ha.follows.computing hcomputing
    obtain ⟨g, -, hw⟩ := ha.holds.worksOut h.table.indexed ht
    obtain ⟨j, u, hu, ho, hactive⟩ := hw.exists_active h.table
      (fun j v hv hvo => hf v (h.mem_tasksOf.2 ⟨by rw [h.table.indexed.id_eq hv, hv], hvo⟩))
      (h.mem_tasksOf.1 ht).1 hc
    have hm : u ∈ s.tasksOf e.id := h.mem_tasksOf.2 ⟨by rw [h.table.indexed.id_eq hu, hu], ho⟩
    refine ⟨u, hm, ?_, hactive⟩
    rw [ha.taskIds, ← ha.holds.ids_ofOwner]
    exact List.mem_map_of_mem hm

end Store

namespace Coordinator

/--
In every reachable state an expression that is not final owns a task that is processing or eligible.
So when nothing is handed out, it owns a task that is processing, before the call and after it.
-/
theorem exists_active_of_not_terminal {c : Coordinator} (hc : c.Reachable) {i : ExpressionId}
    {e : Expression} (he : c.store.expressions[i]? = some e) (hs : e.status.isTerminal = false) :
    (∃ t ∈ c.store.tasksOf e.id, t.id ∈ e.taskIds ∧
      (t.status = .processing ∨ c.store.tasks.isEligible t = true)) ∧
    ∀ asked started, (c.nextTask asked started).1 = none →
      ∃ t ∈ c.store.tasksOf e.id, t ∈ (c.nextTask asked started).2.store.tasksOf e.id ∧
        t.id ∈ e.taskIds ∧ t.status = .processing := by
  have h := hc.sound
  refine ⟨h.exists_active he hs, fun asked started hnone => ?_⟩
  -- nothing is eligible once overdue tasks are back, so the active task there is with a worker
  obtain ⟨hsound, hcalm⟩ := calm_requeueOverdue h.table asked
  rcases nextTask_eq h.table asked started rfl with ⟨hnext, hall⟩ | ⟨u, -, -, hnext⟩
  · have h₁ : (c.requeueOverdue asked).2.store.Sound c.times := h.calm rfl hsound hcalm
    obtain ⟨t, ht, hid, hactive⟩ := h₁.exists_active he hs
    obtain ⟨hget, ho⟩ := h₁.mem_tasksOf.1 ht
    rcases hactive with hp | hel
    · refine ⟨t, h.mem_tasksOf.2 ⟨?_, ho⟩, ?_, hid, hp⟩
      · exact TaskTable.get?_of_foldl_requeue (by simp [hp]) h.table.indexed hget
      · rw [hnext]
        exact ht
    · rw [hall _ t hget] at hel
      cases hel
  · rw [hnext] at hnone
    cases hnone

/-- The only task of a quotient is with a worker, so there is no other to hand out. -/
theorem exists_active_of_quotient :
    let c := (initial .instant none).run [.submitText "6/2" 0,
      .nextTask (Evaluation.clock 1) (Evaluation.clock 2)]
    ∃ e, c.store.expressions[(Id.ofNat 0 : ExpressionId)]? = some e ∧
      (c.nextTask (Evaluation.clock 3) (Evaluation.clock 4)).1 = none ∧
      ∃ t ∈ c.store.tasksOf e.id, t.status = .processing := by
  intro c
  have hc : c.Reachable := ⟨.instant, none, _, by decide, rfl⟩
  have he : c.store.expressions[(Id.ofNat 0 : ExpressionId)]? = some
      { id := Id.ofNat 0, text := "6/2", status := .computing, result := none, error := none,
        createdAt := Evaluation.clock 0, updatedAt := Evaluation.clock 0,
        taskIds := [Id.ofNat 1, Id.ofNat 2, Id.ofNat 3] } := by decide
  have hnone : (c.nextTask (Evaluation.clock 3) (Evaluation.clock 4)).1 = none := by decide
  obtain ⟨t, ht, -, -, hp⟩ := (exists_active_of_not_terminal hc he rfl).2 _ _ hnone
  exact ⟨_, he, hnone, t, ht, hp⟩

end Coordinator

end Reckoner
