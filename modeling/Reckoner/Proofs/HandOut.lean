import Reckoner.Proofs.Coordinator.Tables

/-!
# What is handed out

After any run a task that goes to a worker is an operation that was pending, and carries the results
of its two dependencies as they are stored at that moment.
-/

namespace Reckoner.Coordinator

theorem exists_ready {c c' : Coordinator} (h : c.store.tasks.Proper) {asked started : Instant}
    {t : Task} (hn : c.nextTask asked started = (some t, c')) {c₁ : Coordinator}
    (hc₁ : (c.requeueOverdue asked).2 = c₁) :
    ∃ u op l r a b, c₁.store.tasks.get? u.id = some u ∧ u.status = .pending ∧ t = u.start started ∧
      c'.store.tasks = c₁.store.tasks.put u t ∧ c₁.store.tasks.Ready u op l r a b := by
  obtain ⟨hs, hc⟩ := calm_requeueOverdue h.sound asked
  have h₁ : c₁.store.tasks.Proper := hc₁ ▸ h.calm hs hc
  rcases nextTask_eq h.sound asked started hc₁ with ⟨hnone, -⟩ | ⟨u, hu, he, hsome⟩
  · rw [hnone] at hn
    cases hn
  · rw [hsome] at hn
    cases hn
    obtain ⟨op, l, r, a, b, hready⟩ := h₁.exists_ready hu he
    exact ⟨u, op, l, r, a, b, hu, (TaskTable.isEligible_iff.1 he).1, rfl, rfl, hready⟩

/--
Whatever is handed out was pending, is no literal, and carries the results of its two dependencies
as they are stored before the call and after it. So no operand of its assignment is made up.
-/
theorem ready_of_nextTask (times : OperationTimes) (lease : Option Duration) (calls : List Call)
    {c c' : Coordinator} (hc : c = (initial times lease).run calls) {asked started : Instant}
    {t : Task} (hn : c.nextTask asked started = (some t, c')) :
    ∃ u op l r a b, (c.requeueOverdue asked).2.store.tasks.get? t.id = some u ∧
      u.status = .pending ∧ t = u.start started ∧ t.operation ≠ .value ∧
      c.store.tasks.Ready t op l r a b ∧
      c'.store.tasks.Ready t op l r a b ∧
      Assignment.ofTask t = ⟨t.id, a, b, op.operation, t.duration⟩ := by
  have h : c.store.tasks.Proper := hc ▸ proper_run .empty calls
  obtain ⟨u, op, l, r, a, b, hu, hp, rfl, htable, hready⟩ := exists_ready h hn rfl
  have hready := hready.start started
  obtain ⟨hl, hr⟩ := hready.stored
  obtain ⟨hlc, hrc⟩ := hready.completed
  -- completed tasks come through the return of overdue ones and through the hand-out of a pending
  -- one
  have before : ∀ {v : Task}, v.status = .completed →
      (c.requeueOverdue asked).2.store.tasks.get? v.id = some v →
      c.store.tasks.get? v.id = some v :=
    fun hv => TaskTable.get?_of_foldl_requeue (by simp [hv]) h.sound.indexed
  have after : ∀ {v : Task}, v.status = .completed →
      (c.requeueOverdue asked).2.store.tasks.get? v.id = some v →
      c'.store.tasks.get? v.id = some v := by
    intro v hv hget
    rw [htable, TaskTable.get?_put, if_neg, hget]
    intro hid
    have huv : u.id = v.id := hid
    rw [← huv, hu] at hget
    cases hget
    rw [hp] at hv
    cases hv
  exact ⟨u, op, l, r, a, b, hu, hp, rfl, hready.operation ▸ op.operation_ne_value,
    hready.congr (before hlc hl) (before hrc hr), hready.congr (after hlc hl) (after hrc hr),
    hready.ofTask_eq⟩

/-- A product is reported twice, and the sum over it goes out with the later result. -/
theorem ready_of_second_report :
    let c := (initial .instant none).run [.submitText "1+2*3" 0,
      .nextTask (Evaluation.clock 1) (Evaluation.clock 2),
      .report (Id.ofNat 4) (.completed 7.0) (Evaluation.clock 3),
      .report (Id.ofNat 4) (.completed 6.0) (Evaluation.clock 4)]
    ∃ t c' op l r a b, c.nextTask (Evaluation.clock 5) (Evaluation.clock 6) = (some t, c') ∧
      c'.store.tasks.Ready t op l r a b ∧
      Assignment.ofTask t = ⟨Id.ofNat 5, 1.0, 6.0, .addition, 0⟩ := by
  intro c
  have ht : (c.nextTask (Evaluation.clock 5) (Evaluation.clock 6)).1.map Assignment.ofTask =
      some ⟨Id.ofNat 5, 1.0, 6.0, .addition, 0⟩ := by decide
  obtain ⟨t, hsome, ht⟩ := Option.map_eq_some_iff.1 ht
  have hn : c.nextTask (Evaluation.clock 5) (Evaluation.clock 6) = (some t, _) := Prod.ext hsome rfl
  obtain ⟨-, op, l, r, a, b, -, -, -, -, -, hready, -⟩ := ready_of_nextTask .instant none _ rfl hn
  exact ⟨t, _, op, l, r, a, b, hn, hready, ht⟩

end Reckoner.Coordinator
