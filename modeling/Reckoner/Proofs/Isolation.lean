import Reckoner.Proofs.Coordinator.Tables

/-!
# Isolation

Tasks depend on tasks of their own expression alone (`Closed`), after every run. So a result that is
written into its slots stays within one expression, and no call reaches into the expressions that it
is not about.
-/

namespace Reckoner

namespace TaskTable

def Closed (table : TaskTable) : Prop :=
  ∀ ⦃i t⦄, table.get? i = some t → ∀ d ∈ t.dependencies, ∃ u, table.get? d = some u ∧
    u.owner = t.owner

@[simp] theorem consumersOf_settle (table : TaskTable) (p : Task) (i : TaskId) :
    (table.settle p).consumersOf i = table.consumersOf i := by
  unfold settle; split <;> rfl

theorem get?_settle_of_not_consumer {table : TaskTable} {p : Task} {j : TaskId}
    (hj : j ∉ table.consumersOf p.id) : (table.settle p).get? j = table.get? j := by
  rw [get?_settle]
  cases p.completedResult with
  | none => exact Option.map_id'
  | some r =>
    simp only [if_neg hj]
    exact Option.map_id'

theorem get?_foldl_settle_of_not_consumer {j : TaskId} : ∀ {batch : List Task} {table : TaskTable},
    (∀ p ∈ batch, j ∉ table.consumersOf p.id) → (batch.foldl settle table).get? j = table.get? j
  | [], _, _ => rfl
  | p :: rest, table, h => by
    have hrest : ∀ q ∈ rest, j ∉ (table.settle p).consumersOf q.id := by
      intro q hq
      rw [consumersOf_settle]
      exact h q (by simp [hq])
    rw [List.foldl_cons, get?_foldl_settle_of_not_consumer hrest,
      get?_settle_of_not_consumer (h p (by simp))]

namespace Closed

theorem empty : TaskTable.empty.Closed := fun i t h => by simp at h

variable {table : TaskTable} (h : table.Closed)
include h

/-- What a table keeps stays closed, so only the tasks that are new have to be looked at. -/
theorem of_keeps {table' : TaskTable} (hk : table.Keeps table')
    (hnew : ∀ ⦃i u⦄, table'.get? i = some u →
      (∃ t, table.get? i = some t ∧ u.blueprint = t.blueprint) ∨
      ∀ d ∈ u.dependencies, ∃ v, table'.get? d = some v ∧ v.owner = u.owner) : table'.Closed := by
  intro i u hu
  rcases hnew hu with ⟨t, ht, hb⟩ | hdeps
  · obtain ⟨-, ho, -, hd, -⟩ := Task.fields_of_blueprint hb
    intro d hm
    rw [hd] at hm
    obtain ⟨v, hv, hvo⟩ := h ht d hm
    obtain ⟨w, hw, hwb⟩ := hk hv
    exact ⟨w, hw, ((Task.fields_of_blueprint hwb).2.1.trans hvo).trans ho.symm⟩
  · exact hdeps

theorem calm {table' : TaskTable} (hc : table.Calm table') : table'.Closed := by
  refine h.of_keeps (keeps_of_standing hc.standing) fun i u hu => .inl ?_
  obtain ⟨t, ht, e⟩ := hc.exists_get? hu
  exact ⟨t, ht, Task.blueprint_eq_of_standing_eq e⟩

theorem reported {t : Task} (ht : table.get? t.id = some t) (r : Report) (now : Instant) :
    (table.reported t r now).Closed :=
  h.of_keeps (keeps_reported ht r now) fun _ _ hu => .inl (exists_get?_of_reported ht r now hu)

theorem arrived_plan {times : OperationTimes} {owner : ExpressionId} {stamps : Nat → Stamp}
    {f : Formula} (hn : ((f.plan times owner stamps).map Task.id).Nodup)
    (hf : ∀ t ∈ f.plan times owner stamps, table.get? t.id = none) :
    (table.arrived (f.plan times owner stamps)).Closed := by
  refine h.of_keeps (keeps_arrived hf) fun i u hu => ?_
  obtain ⟨t, ⟨ht, -⟩ | ht, e⟩ := exists_get?_of_arrived hn hu
  · right
    obtain ⟨-, ho, -, hd, -⟩ := Task.fields_of_blueprint (Task.blueprint_eq_of_standing_eq e)
    intro d hm
    rw [hd] at hm
    obtain ⟨p, hp, rfl⟩ := List.mem_map.1 (Plan.dependency_mem_plan ht hm)
    obtain ⟨v, hv, hs⟩ := Option.map_eq_some_iff.1 (table.standing_arrived_of_mem hn hp)
    refine ⟨v, hv, ?_⟩
    rw [Task.owner_eq_of_standing_eq hs, ho, Plan.owner_of_mem hp, Plan.owner_of_mem ht]
  · exact .inl ⟨t, ht, Task.blueprint_eq_of_standing_eq e⟩

variable (hi : table.Indexed)
include hi

/-- A result is written to consumers only, and those belong to the expression of the task. -/
theorem get?_reported {t : Task} (ht : table.get? t.id = some t) (r : Report) (now : Instant)
    {j : TaskId} {u : Task} (hu : table.get? j = some u) (ho : u.owner ≠ t.owner) :
    (table.reported t r now).get? j = some u := by
  have hid := (r.fields_apply t now).1
  have hne : (r.apply t now).id ≠ j := by
    rintro rfl
    rw [hid, ht] at hu
    cases hu
    exact ho rfl
  have hput : (table.put t (r.apply t now)).get? j = some u := by rw [get?_put, if_neg hne, hu]
  have hconsumer : j ∉ (table.put t (r.apply t now)).consumersOf (r.apply t now).id := by
    rw [consumersOf_put, hid, hi.mem_consumersOf]
    rintro ⟨v, hv, hd⟩
    cases hu.symm.trans hv
    obtain ⟨w, hw, hwo⟩ := h hu t.id hd
    cases ht.symm.trans hw
    exact ho hwo.symm
  rw [TaskTable.reported, get?_settle_of_not_consumer hconsumer, hput]

/-- What is stored depends on nothing that arrives later. -/
theorem get?_arrived {batch : List Task} (hn : (batch.map Task.id).Nodup)
    (hf : ∀ t ∈ batch, table.get? t.id = none) {j : TaskId} {u : Task}
    (hu : table.get? j = some u) : (table.arrived batch).get? j = some u := by
  have hadd : (batch.foldl add table).get? j = some u := by
    rw [get?_foldl_add_of_not_mem (not_mem_of_get? hf hu), hu]
  have hconsumer : ∀ p ∈ batch, j ∉ (batch.foldl add table).consumersOf p.id := by
    intro p hp hj
    obtain ⟨v, hv, hd⟩ := (hi.foldl_add hn hf).mem_consumersOf.1 hj
    cases hadd.symm.trans hv
    obtain ⟨w, hw, -⟩ := h hu p.id hd
    rw [hf p hp] at hw
    cases hw
  rw [arrived, get?_foldl_settle_of_not_consumer hconsumer, hadd]

end Closed

end TaskTable

/-! ## Stores -/

/-- The expression is filed as it was, and owns the same tasks, which have not changed at all. -/
structure Store.Untouched (s s' : Store) (o : ExpressionId) : Prop where
  expression : s'.expressions[o]? = s.expressions[o]?
  tasksOf : s'.tasksOf o = s.tasksOf o
  tasks : ∀ i t, t.owner = o → (s'.tasks.get? i = some t ↔ s.tasks.get? i = some t)

theorem Store.Untouched.of_kept {s s' : Store} {o : ExpressionId} (hi : s.tasks.Indexed)
    (hi' : s'.tasks.Indexed) (he : s'.expressions[o]? = s.expressions[o]?)
    (hids : s'.tasks.idsOf o = s.tasks.idsOf o)
    (hkept : ∀ i t, s.tasks.get? i = some t → t.owner = o → s'.tasks.get? i = some t) :
    s.Untouched s' o where
  expression := he
  tasksOf := by
    rw [Store.tasksOf, Store.tasksOf, TaskTable.ofOwner_eq, TaskTable.ofOwner_eq, hids]
    refine List.filterMap_congr fun i hm => ?_
    obtain ⟨t, ht, ho⟩ := hi.mem_idsOf.1 hm
    rw [hkept i t ht ho, ht]
  tasks i t ho := by
    refine ⟨fun ht => ?_, fun ht => hkept i t ht ho⟩
    -- the task is listed for its owner, so there was one before, and that one has been kept
    have hm : i ∈ s.tasks.idsOf o := hids ▸ hi'.mem_idsOf.2 ⟨t, ht, ho⟩
    obtain ⟨u, hu, huo⟩ := hi.mem_idsOf.1 hm
    cases ht.symm.trans (hkept i u hu huo)
    exact hu

theorem Store.getElem?_recompute {s s' : Store} {i j : ExpressionId} {status : ExpressionStatus}
    {now : Instant} (h : s.recompute i now = .ok (status, s')) (hne : i ≠ j) :
    s'.expressions[j]? = s.expressions[j]? := by
  rcases of_recompute_eq_ok h with rfl | ⟨e, o, -, rfl⟩
  · rfl
  · rw [getElem?_insert, if_neg hne]

theorem Store.getElem?_modifyExpression {s s' : Store} {i j : ExpressionId}
    {f : Expression → Expression} {e : Expression} {now : Instant}
    (h : s.modifyExpression i f now = .ok (e, s')) (hne : i ≠ j) :
    s'.expressions[j]? = s.expressions[j]? := by
  obtain ⟨old, -, rfl⟩ := of_modifyExpression_eq_ok h
  rw [getElem?_insert, if_neg hne]

namespace Coordinator

variable {c : Coordinator}

/-! ## Submissions -/

theorem getElem?_submit (c : Coordinator) (text : String) {stamp : Stamp} (stamps : Nat → Stamp)
    (now : Instant) {j : ExpressionId} (hne : ⟨stamp.uuid⟩ ≠ j) :
    (c.submit text stamp stamps now).2.store.expressions[j]? = c.store.expressions[j]? := by
  apply submit_induction (P := fun s => s.expressions[j]? = c.store.expressions[j]?)
  case file => rw [Store.getElem?_createExpression, if_neg hne]
  case fail => exact fun _ hs h => (Store.getElem?_modifyExpression hs hne).trans h
  case save => exact fun hs h => by rw [Store.expressions_saveTasks hs, h]
  case link => exact fun _ hs h => (Store.getElem?_modifyExpression hs hne).trans h
  case recompute => exact fun hs h => (Store.getElem?_recompute hs hne).trans h

theorem get?_submit (h : c.store.tasks.Indexed) (hc : c.store.tasks.Closed) (text : String)
    (stamp : Stamp) (stamps : Nat → Stamp) (now : Instant) {i : TaskId} {t : Task}
    (ht : c.store.tasks.get? i = some t) :
    (c.submit text stamp stamps now).2.store.tasks.get? i = some t := by
  rcases tasks_submit c text stamp stamps now with e | ⟨f, hn, hf, e⟩
  · rw [e, ht]
  · rw [e]
    exact hc.get?_arrived h hn hf ht

theorem untouched_submit (h : c.store.tasks.Proper) (hc : c.store.tasks.Closed) (text : String)
    {stamp : Stamp} (stamps : Nat → Stamp) (now : Instant) {o : ExpressionId}
    (hne : ⟨stamp.uuid⟩ ≠ o) : c.store.Untouched (c.submit text stamp stamps now).2.store o := by
  have hi := h.sound.indexed
  have hi' : (c.submit text stamp stamps now).2.store.tasks.Indexed :=
    (proper_after h (.submit text stamp stamps now)).sound.indexed
  refine .of_kept hi hi' (getElem?_submit c text stamps now hne) ?_
    fun i t ht _ => get?_submit hi hc text stamp stamps now ht
  rcases tasks_submit c text stamp stamps now with e | ⟨f, hn, hf, e⟩
  · rw [e]
  · rw [e]
    exact (TaskTable.standing_arrived_of_ne hi hf fun t ht => Plan.owner_of_mem ht ▸ hne).1

/-! ## Reports -/

theorem getElem?_report {i : TaskId} {j : ExpressionId}
    (ho : ∀ t, c.store.tasks.get? i = some t → t.owner ≠ j) (r : Report) (now : Instant) :
    (c.report i r now).2.store.expressions[j]? = c.store.expressions[j]? := by
  apply report_induction (P := fun s => s.expressions[j]? = c.store.expressions[j]?)
  case start => rfl
  case update => exact fun hs => by rw [Store.expressions_updateTask hs]
  case recompute => exact fun ht hs h =>
    (Store.getElem?_recompute hs (ho _ (Store.task_eq_ok.1 ht))).trans h

theorem untouched_report (h : c.store.tasks.Proper) (hc : c.store.tasks.Closed) {i : TaskId}
    {o : ExpressionId} (ho : ∀ t, c.store.tasks.get? i = some t → t.owner ≠ o) (r : Report)
    (now : Instant) : c.store.Untouched (c.report i r now).2.store o := by
  have hi := h.sound.indexed
  have hi' : (c.report i r now).2.store.tasks.Indexed :=
    (proper_after h (.report i r now)).sound.indexed
  refine .of_kept hi hi' (getElem?_report ho r now) ?_ ?_
  · cases ht : c.store.tasks.get? i with
    | none => rw [report_eq_of_unknown ht]
    | some t => rw [tasks_report hi ht, TaskTable.idsOf_reported]
  · intro j u hu huo
    cases ht : c.store.tasks.get? i with
    | none =>
      rw [report_eq_of_unknown ht]
      exact hu
    | some t =>
      rw [tasks_report hi ht]
      cases hi.id_eq ht
      exact hc.get?_reported hi ht r now hu (huo ▸ (ho t ht).symm)

/-! ## Runs -/

theorem closed_after (hp : c.store.tasks.Proper) (hc : c.store.tasks.Closed) (call : Call) :
    (c.after call).store.tasks.Closed := by
  cases call with
  | submit text stamp stamps now =>
    rw [after]
    rcases tasks_submit c text stamp stamps now with e | ⟨f, hn, hf, e⟩
    · rw [e]
      exact hc
    · rw [e]
      exact hc.arrived_plan hn hf
  | nextTask asked started => exact hc.calm (calm_nextTask hp.sound asked started).2
  | requeue now => exact hc.calm (calm_requeueOverdue hp.sound now).2
  | report i r now =>
    rw [after]
    cases ht : c.store.tasks.get? i with
    | none =>
      rw [report_eq_of_unknown ht]
      exact hc
    | some t =>
      rw [tasks_report hp.sound.indexed ht]
      cases hp.sound.indexed.id_eq ht
      exact hc.reported ht r now

theorem closed_run (hp : c.store.tasks.Proper) (hc : c.store.tasks.Closed) (calls : List Call) :
    (c.run calls).store.tasks.Closed := by
  induction calls generalizing c with
  | nil => exact hc
  | cons call rest ih => exact ih (proper_after hp call) (closed_after hp hc call)

/--
After any run, a report leaves every expression alone that does not own the task, with all its
tasks. A submission leaves every expression alone but the one that it files, and every stored task.
Without a lease a request for a task changes that task's status and start and nothing else.
-/
theorem untouched_of_other (times : OperationTimes) (lease : Option Duration) (calls : List Call) :
    let c := (initial times lease).run calls
    (∀ i r now o, (∀ t, c.store.tasks.get? i = some t → t.owner ≠ o) →
      c.store.Untouched (c.report i r now).2.store o) ∧
    (∀ text stamp stamps now,
      (∀ o : ExpressionId, ⟨stamp.uuid⟩ ≠ o →
        c.store.Untouched (c.submit text stamp stamps now).2.store o) ∧
      ∀ i t, c.store.tasks.get? i = some t →
        (c.submit text stamp stamps now).2.store.tasks.get? i = some t) ∧
    (lease = none → ∀ asked started, c.nextTask asked started = (none, c) ∨
      ∃ u s, c.store.tasks.get? u.id = some u ∧
        c.nextTask asked started = (some (u.start started), { c with store := s }) ∧
        s.expressions = c.store.expressions ∧
        ∀ i, s.tasks.get? i = if u.id = i then
          some { u with status := .processing, startedAt := some started }
          else c.store.tasks.get? i) := by
  intro c
  have h : c.store.tasks.Proper := proper_run .empty calls
  have hc : c.store.tasks.Closed := closed_run .empty .empty calls
  refine ⟨fun i r now o ho => untouched_report h hc ho r now, fun text stamp stamps now =>
    ⟨?_, ?_⟩, ?_⟩
  · exact fun o hne => untouched_submit h hc text stamps now hne
  · exact fun i t ht => get?_submit h.sound.indexed hc text stamp stamps now ht
  · intro hl asked started
    have hlease : c.term = none := by rw [term_run, initial, hl]
    rcases nextTask_eq h.sound asked started (requeueOverdue_of_no_lease hlease asked) with
      ⟨hnext, -⟩ | ⟨u, hu, -, hnext⟩
    · exact .inl hnext
    · exact .inr ⟨u, _, hu, hnext, rfl, fun i => TaskTable.get?_put ..⟩

/--
Two sums share a coordinator: one is reported, a text that cannot be read comes in, and the other
goes out.
-/
theorem untouched_of_other_sum :
    let c := (initial .instant none).run [.submitText "1+2" 0, .submitText "3+4" 4,
      .nextTask (Evaluation.clock 8) (Evaluation.clock 9)]
    c.store.Untouched (c.report (Id.ofNat 3) (.completed 3.0) (Evaluation.clock 10)).2.store
      (Id.ofNat 4) ∧
    c.store.Untouched (c.after (.submitText "1+" 10)).store (Id.ofNat 0) ∧
    ∃ u, c.store.tasks.get? (Id.ofNat 7) = some u ∧
      (c.nextTask (Evaluation.clock 10) (Evaluation.clock 11)).1 =
        some (u.start (Evaluation.clock 11)) := by
  intro c
  obtain ⟨hreport, hsubmit, hnext⟩ :=
    untouched_of_other .instant none [.submitText "1+2" 0, .submitText "3+4" 4,
    .nextTask (Evaluation.clock 8) (Evaluation.clock 9)]
  refine ⟨hreport _ _ _ _ fun t ht => ?_, (hsubmit _ _ _ _).1 _ (by decide), ?_⟩
  · have howner : (c.store.tasks.get? (Id.ofNat 3)).map Task.owner = some (Id.ofNat 0) := by decide
    rw [ht] at howner
    rw [Option.some.inj howner]
    decide
  · have hid : (c.nextTask (Evaluation.clock 10) (Evaluation.clock 11)).1.map Task.id =
        some (Id.ofNat 7) := by decide
    rcases hnext rfl (Evaluation.clock 10) (Evaluation.clock 11) with e | ⟨u, s, hu, e, -⟩
    · rw [e] at hid
      cases hid
    · rw [e] at hid ⊢
      have hu' : u.id = Id.ofNat 7 := Option.some.inj hid
      exact ⟨u, hu' ▸ hu, rfl⟩

end Coordinator

end Reckoner
