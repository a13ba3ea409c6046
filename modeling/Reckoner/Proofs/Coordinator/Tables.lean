import Reckoner.Proofs.Coordinator.Run
import Reckoner.Proofs.Store
import Reckoner.Proofs.Task.Ready

/-!
# Tables along runs

Every run leaves a proper table, even one that draws an identifier twice: a batch with an identifier
that is taken is not stored, and nothing that happens to expressions touches the tasks.
-/

namespace Reckoner

namespace Store

theorem tasks_recompute {s s' : Store} {i : ExpressionId} {status : ExpressionStatus}
    {now : Instant} (h : s.recompute i now = .ok (status, s')) : s'.tasks = s.tasks := by
  rcases of_recompute_eq_ok h with rfl | ⟨e, o, -, rfl⟩ <;> rfl

theorem tasks_modifyExpression {s s' : Store} {i : ExpressionId} {f : Expression → Expression}
    {e : Expression} {now : Instant} (h : s.modifyExpression i f now = .ok (e, s')) :
    s'.tasks = s.tasks := by
  obtain ⟨old, -, rfl⟩ := of_modifyExpression_eq_ok h
  rfl

theorem insertAll_of_saveTasks {s s' : Store} {batch : List Task} (h : s.saveTasks batch = .ok s') :
    s.tasks.insertAll batch = (.ok (), s'.tasks) := by
  rw [saveTasks] at h
  split at h
  · cases h
  · rename_i hi
    cases h
    exact hi

theorem expressions_saveTasks {s s' : Store} {batch : List Task} (h : s.saveTasks batch = .ok s') :
    s'.expressions = s.expressions := by
  rw [saveTasks] at h
  split at h
  · cases h
  · cases h
    rfl

theorem replace_of_updateTask {s s' : Store} {t : Task} (h : s.updateTask t = .ok s') :
    s.tasks.replace t = (.ok (), s'.tasks) := by
  rw [updateTask] at h
  split at h
  · cases h
  · rename_i hr
    cases h
    exact hr

theorem expressions_updateTask {s s' : Store} {t : Task} (h : s.updateTask t = .ok s') :
    s'.expressions = s.expressions := by
  rw [updateTask] at h
  split at h
  · cases h
  · cases h
    rfl

theorem updateTask_apply {s : Store} {t : Task} (ht : s.tasks.get? t.id = some t) (r : Report)
    (now : Instant) :
    s.updateTask (r.apply t now) = .ok { s with tasks := s.tasks.reported t r now } := by
  simp only [updateTask, TaskTable.replace_apply ht r now]

end Store

namespace Coordinator

variable {c : Coordinator}

/-! ## Work -/

theorem expressions_nextTask (c : Coordinator) (asked started : Instant) :
    (c.nextTask asked started).2.store.expressions = c.store.expressions := by
  unfold nextTask
  dsimp only
  split <;> rfl

theorem calm_requeueOverdue (h : c.store.tasks.Sound) (now : Instant) :
    (c.requeueOverdue now).2.store.tasks.Sound ∧
      c.store.tasks.Calm (c.requeueOverdue now).2.store.tasks :=
  h.requeueOverdue c.term now

theorem requeueOverdue_of_nil {now : Instant} (h : c.store.tasks.overdue c.term now = []) :
    c.requeueOverdue now = ([], c) := by
  simp only [requeueOverdue, TaskTable.requeueOverdue, h]
  rfl

theorem requeueOverdue_of_no_lease (hl : c.term = none) (now : Instant) :
    (c.requeueOverdue now).2 = c := by
  rw [requeueOverdue_of_nil (by rw [hl]; rfl)]

/-- After the return of overdue tasks, the first eligible one is handed out. -/
theorem nextTask_eq_elim {asked : Instant} {c₁ : Coordinator}
    (hc₁ : (c.requeueOverdue asked).2 = c₁) (h : c₁.store.tasks.Indexed) (started : Instant) :
    c.nextTask asked started = c₁.store.tasks.nextEligible?.elim (none, c₁) fun u =>
      (some (u.start started),
      { c₁ with store := { c₁.store with tasks := c₁.store.tasks.put u (u.start started) } }) := by
  simp only [nextTask, hc₁, h.dispatch?_eq]
  cases c₁.store.tasks.nextEligible? <;> rfl

theorem nextTask_spec {asked : Instant} {c₁ : Coordinator} (hc₁ : (c.requeueOverdue asked).2 = c₁)
    (h : c₁.store.tasks.Indexed) (started : Instant) :
    (c.nextTask asked started = (none, c₁) ∧
      ∀ i t, c₁.store.tasks.get? i = some t → c₁.store.tasks.isEligible t = false) ∨
    ∃ u, c₁.store.tasks.get? u.id = some u ∧ c₁.store.tasks.isEligible u = true ∧
      (∀ i t, c₁.store.tasks.get? i = some t → c₁.store.tasks.isEligible t = true → t ≠ u →
        compare u.queueKey t.queueKey = .lt) ∧
      c.nextTask asked started = (some (u.start started),
        { c₁ with
          store := { c₁.store with tasks := c₁.store.tasks.put u (u.start started) } }) := by
  have hout := nextTask_eq_elim hc₁ h started
  cases hu : c₁.store.tasks.nextEligible? with
  | none =>
    rw [hu] at hout
    exact .inl ⟨hout, h.nextEligible?_eq_none.1 hu⟩
  | some u =>
    rw [hu] at hout
    obtain ⟨hget, he, hleast⟩ := h.of_nextEligible?_eq_some hu
    exact .inr ⟨u, hget, he, hleast, hout⟩

theorem nextTask_eq (h : c.store.tasks.Sound) (asked started : Instant) {c₁ : Coordinator}
    (hc₁ : (c.requeueOverdue asked).2 = c₁) :
    (c.nextTask asked started = (none, c₁) ∧
      ∀ i t, c₁.store.tasks.get? i = some t → c₁.store.tasks.isEligible t = false) ∨
    ∃ u, c₁.store.tasks.get? u.id = some u ∧ c₁.store.tasks.isEligible u = true ∧
      c.nextTask asked started = (some (u.start started),
        { c₁ with
          store := { c₁.store with tasks := c₁.store.tasks.put u (u.start started) } }) := by
  have hi : c₁.store.tasks.Indexed := hc₁ ▸ (calm_requeueOverdue h asked).1.indexed
  rcases nextTask_spec hc₁ hi started with hnone | ⟨u, hget, he, -, hout⟩
  · exact .inl hnone
  · exact .inr ⟨u, hget, he, hout⟩

/-- A task that does not wait when the overdue ones are back stays out of the hand-out. -/
theorem nextTask_of_not_pending (h : c.store.tasks.Sound) {asked : Instant} (started : Instant)
    {i : TaskId} {t : Task} (ht : (c.requeueOverdue asked).2.store.tasks.get? i = some t)
    (hp : t.status ≠ .pending) :
    (c.nextTask asked started).2.store.tasks.get? i = some t ∧
      ∀ u, (c.nextTask asked started).1 = some u → u.id ≠ i := by
  rcases nextTask_eq h asked started rfl with ⟨e, -⟩ | ⟨u, hu, he, e⟩
  · rw [e]
    exact ⟨ht, fun u hu => by cases hu⟩
  · have hne : u.id ≠ i := by
      rintro rfl
      cases hu.symm.trans ht
      exact hp (TaskTable.isEligible_iff.1 he).1
    rw [e]
    refine ⟨?_, fun v hv => ?_⟩
    · rw [TaskTable.get?_put, if_neg (show (u.start started).id ≠ i from hne), ht]
    · cases hv
      exact hne

theorem calm_nextTask (h : c.store.tasks.Sound) (asked started : Instant) :
    (c.nextTask asked started).2.store.tasks.Sound ∧
      c.store.tasks.Calm (c.nextTask asked started).2.store.tasks := by
  obtain ⟨hs, hc⟩ := calm_requeueOverdue h asked
  rcases nextTask_eq h asked started rfl with ⟨e, -⟩ | ⟨u, hu, he, e⟩
  · rw [e]
    exact ⟨hs, hc⟩
  · have hp := (TaskTable.isEligible_iff.1 he).1
    rw [e]
    exact ⟨hs.start hu hp started,
      hc.trans (.put (t := u.start started) hu (u.standing_start started hp))⟩

/-! ## Reports and submissions -/

theorem report_eq_of_unknown {i : TaskId} (hi : c.store.tasks.get? i = none) (r : Report)
    (now : Instant) : c.report i r now = (.error (.taskNotFound i), c) := by
  simp only [report, Store.task, hi]

theorem tasks_report (h : c.store.tasks.Indexed) {i : TaskId} {t : Task}
    (ht : c.store.tasks.get? i = some t) (r : Report) (now : Instant) :
    (c.report i r now).2.store.tasks =
      c.store.tasks.reported t r now := by
  cases h.id_eq ht
  have htask : c.store.task t.id = .ok t := Store.task_eq_ok.2 ht
  simp only [report, htask, Store.updateTask_apply ht r now]
  split
  · rfl
  · rename_i hs'
    exact Store.tasks_recompute hs'

theorem map_get?_report {α : Type} {f : Task → α} (hf : ∀ t id r, f (t.resolve id r) = f t)
    (h : c.store.tasks.Indexed) {i : TaskId} {t : Task} (ht : c.store.tasks.get? i = some t)
    (r : Report) (now : Instant) (j : TaskId) : ((c.report i r now).2.store.tasks.get? j).map f =
      if i = j then some (f (r.apply t now)) else (c.store.tasks.get? j).map f := by
  rw [tasks_report h ht, TaskTable.map_get?_reported _ _ _ _ hf, h.id_eq ht]

theorem tasks_refuse (s : Store) (id : ExpressionId) (message : String) (fault : Fault)
    (now : Instant) : (refuse s id message fault now).2.tasks = s.tasks := by
  unfold refuse
  split
  · rfl
  · rename_i hs'
    exact Store.tasks_modifyExpression hs'

theorem tasks_launch (s : Store) (id : ExpressionId) (batch : List Task) (now : Instant) :
    (launch s id batch now).2.tasks = s.tasks ∨
      (batch.map Task.id).Nodup ∧ (∀ t ∈ batch, s.tasks.get? t.id = none) ∧
        (launch s id batch now).2.tasks = s.tasks.arrived batch := by
  cases hsave : s.saveTasks batch with
  | error fault =>
    left
    simp only [launch, hsave]
  | ok s₁ =>
    right
    obtain ⟨hn, hf, e⟩ := TaskTable.of_insertAll_eq_ok (Store.insertAll_of_saveTasks hsave)
    refine ⟨hn, hf, ?_⟩
    simp only [launch, hsave]
    split
    · exact e
    · rename_i hs₂
      have h₂ := (Store.tasks_modifyExpression hs₂).trans e
      split
      · exact h₂
      · rename_i hs₃
        exact (Store.tasks_recompute hs₃).trans h₂

/-- A submission brings the tasks of a plan with new identifiers, or none. -/
theorem tasks_submit (c : Coordinator) (text : String) (stamp : Stamp) (stamps : Nat → Stamp)
    (now : Instant) :
    (c.submit text stamp stamps now).2.store.tasks = c.store.tasks ∨
      ∃ f : Formula, ((f.plan c.times ⟨stamp.uuid⟩ stamps).map Task.id).Nodup ∧
        (∀ t ∈ f.plan c.times ⟨stamp.uuid⟩ stamps, c.store.tasks.get? t.id = none) ∧
        (c.submit text stamp stamps now).2.store.tasks =
          c.store.tasks.arrived (f.plan c.times ⟨stamp.uuid⟩ stamps) := by
  have hid : (c.store.createExpression text stamp).1.id = ⟨stamp.uuid⟩ := rfl
  simp only [submit, hid]
  cases hp : Formula.parse text with
  | error cause => exact .inl (tasks_refuse ..)
  | ok f =>
    dsimp only
    cases checkShape (f.plan c.times ⟨stamp.uuid⟩ stamps) with
    | error fault => exact .inl (tasks_refuse ..)
    | ok _ => exact (tasks_launch _ _ _ now).imp_right fun h => ⟨f, h⟩

/-! ## Runs -/

theorem proper_after (h : c.store.tasks.Proper) (call : Call) :
    (c.after call).store.tasks.Proper := by
  cases call with
  | submit text stamp stamps now =>
    simp only [after]
    rcases tasks_submit c text stamp stamps now with e | ⟨f, hn, hf, e⟩
    · rw [e]
      exact h
    · rw [e]
      exact h.arrived_plan hn hf
  | nextTask asked started =>
    obtain ⟨hs, hc⟩ := calm_nextTask h.sound asked started
    exact h.calm hs hc
  | requeue now =>
    obtain ⟨hs, hc⟩ := calm_requeueOverdue h.sound now
    exact h.calm hs hc
  | report i r now =>
    simp only [after]
    cases ht : c.store.tasks.get? i with
    | none =>
      rw [report_eq_of_unknown ht]
      exact h
    | some t =>
      rw [tasks_report h.sound.indexed ht]
      cases h.sound.indexed.id_eq ht
      exact h.reported ht r now

theorem proper_run {c : Coordinator} (h : c.store.tasks.Proper) (calls : List Call) :
    (c.run calls).store.tasks.Proper := by
  induction calls generalizing c with
  | nil => exact h
  | cons call rest ih => exact ih (proper_after h call)

end Coordinator

end Reckoner
