import Reckoner.Proofs.Coordinator.Tables
import Reckoner.Proofs.Store

/-!
# What calls do to sound stores

One lemma for each call that touches expressions says all that it does: `report_eq`,
`submit_eq_of_error` and `submit_eq_of_ok`. Beside identifiers that are new, a sound store is all
that they need.
-/

namespace Reckoner

namespace Coordinator

variable {times : OperationTimes} {c : Coordinator}

/-! ## Reports -/

theorem recompute_reported (h : c.store.Sound times) {t : Task}
    (ht : c.store.tasks.get? t.id = some t) (r : Report) (now : Instant) :
    ∃ e f stamps o s', c.store.expressions[t.owner]? = some e ∧ e.id = t.owner ∧
      c.store.Accepted times e f stamps ∧
      Outcome.ofTasks ((c.store.tasks.reported t r now).ofOwner t.owner) = .ok o ∧
      ({ c.store with tasks := c.store.tasks.reported t r now } : Store).recompute t.owner now =
        .ok ((e.recomputed o now).status, s') ∧
      s'.tasks = c.store.tasks.reported t r now ∧
      ∀ j, s'.expressions[j]? = if t.owner = j then some (e.recomputed o now)
        else c.store.expressions[j]? := by
  obtain ⟨e, f, stamps, he, hid, ha⟩ := h.accepted_of_get? ht
  have hsound := TaskTable.Sound.reported ht r now h.table
  obtain ⟨o, ho⟩ := (ha.holds.reported ht r now h.table.indexed).exists_outcome hsound
  rw [hid] at ho
  obtain ⟨s', hs', htasks, hexpr⟩ := Store.recompute_eq_ok (s := { c.store with
    tasks := c.store.tasks.reported t r now }) (i := t.owner) he ho now
  exact ⟨e, f, stamps, o, s', he, hid, ha, ho, hs', htasks, hexpr⟩

theorem report_eq_of_recompute {t : Task} (ht : c.store.tasks.get? t.id = some t) {r : Report}
    {now : Instant} {s' : Store} {status : ExpressionStatus} {e : Expression}
    (hs : ({ c.store with tasks := c.store.tasks.reported t r now } : Store).recompute t.owner now =
      .ok (status, s'))
    (he : s'.expressions[t.owner]? = some e) :
    c.report t.id r now = (.ok e, { c with store := s' }) := by
  have htask : c.store.task t.id = .ok t := Store.task_eq_ok.2 ht
  simp only [report, htask, Store.updateTask_apply ht r now, hs, Store.expression_eq_ok.2 he]

theorem report_eq (h : c.store.Sound times) {i : TaskId} {t : Task}
    (ht : c.store.tasks.get? i = some t) (r : Report) (now : Instant) :
    ∃ e f stamps o s', c.store.expressions[t.owner]? = some e ∧ e.id = t.owner ∧
      c.store.Accepted times e f stamps ∧
      s'.tasks = c.store.tasks.reported t r now ∧
      Outcome.ofTasks (s'.tasksOf e.id) = .ok o ∧
      c.report i r now = (.ok (e.recomputed o now), { c with store := s' }) ∧
      ∀ j, s'.expressions[j]? = if e.id = j then some (e.recomputed o now)
        else c.store.expressions[j]? := by
  cases h.table.indexed.id_eq ht
  obtain ⟨e, f, stamps, o, s', he, hid, ha, ho, hs', htasks, hexpr⟩ := recompute_reported h ht r now
  refine ⟨e, f, stamps, o, s', he, hid, ha, htasks, ?_, ?_, ?_⟩
  · rw [Store.tasksOf, htasks, hid, ho]
  · exact report_eq_of_recompute ht hs' ((hexpr t.owner).trans (if_pos rfl))
  · rw [hid]
    exact hexpr

/-! ## Submissions -/

theorem submit_eq_of_error (c : Coordinator) {text : String} {cause : SyntaxError}
    (hp : Formula.parse text = .error cause) (stamp : Stamp) (stamps : Nat → Stamp)
    (now : Instant) :
    ∃ s', c.submit text stamp stamps now = (.error (.rejected ⟨stamp.uuid⟩ cause),
      { c with store := s' }) ∧
      s'.tasks = c.store.tasks ∧
      ∀ j : ExpressionId, s'.expressions[j]? = if ⟨stamp.uuid⟩ = j
        then some ((Expression.create text stamp).fail cause.message now)
          else c.store.expressions[j]? := by
  have he : (c.store.createExpression text stamp).2.expressions[(⟨stamp.uuid⟩ : ExpressionId)]? =
      some (Expression.create text stamp) := by
    rw [Store.getElem?_createExpression, if_pos rfl]
  obtain ⟨s', hs', htasks, hexpr⟩ := Store.modifyExpression_eq_ok he (·.fail cause.message now) now
  refine ⟨s', ?_, htasks, fun j => ?_⟩
  · simp only [submit, hp, refuse]
    have hid : (c.store.createExpression text stamp).1.id = ⟨stamp.uuid⟩ := rfl
    rw [hid, hs']
  · rw [hexpr]
    split
    · rfl
    · rename_i hj
      rw [Store.getElem?_createExpression, if_neg hj]

theorem launch_eq {s : Store} {id : ExpressionId} {e : Expression}
    (he : s.expressions[id]? = some e) {batch : List Task} (hn : (batch.map Task.id).Nodup)
    (hf : ∀ t ∈ batch, s.tasks.get? t.id = none) {o : Outcome}
    (ho : Outcome.ofTasks ((s.tasks.arrived batch).ofOwner id) = .ok o) (now : Instant) :
    ∃ s', launch s id batch now = (.ok id, s') ∧ s'.tasks = s.tasks.arrived batch ∧
      ∀ j, s'.expressions[j]? = if id = j
        then some (({ e with taskIds := batch.map Task.id }.touch now).recomputed o now)
        else s.expressions[j]? := by
  have hsave : s.saveTasks batch = .ok { s with tasks := s.tasks.arrived batch } := by
    have hinsert : s.tasks.insertAll batch = (.ok (), s.tasks.arrived batch) :=
      TaskTable.insertAll_eq_ok hn hf
    simp only [Store.saveTasks, hinsert]
  obtain ⟨s₁, hs₁, htasks₁, hexpr₁⟩ := Store.modifyExpression_eq_ok
    (s := { s with tasks := s.tasks.arrived batch }) he
    (fun e => { e with taskIds := batch.map Task.id }) now
  have he₁ := hexpr₁ id
  rw [if_pos rfl] at he₁
  have ho₁ : Outcome.ofTasks (s₁.tasksOf id) = .ok o := by rw [Store.tasksOf, htasks₁, ho]
  obtain ⟨s₂, hs₂, htasks₂, hexpr₂⟩ := Store.recompute_eq_ok he₁ ho₁ now
  refine ⟨s₂, ?_, htasks₂.trans htasks₁, fun j => ?_⟩
  · simp only [launch, hsave, hs₁, hs₂]
  · rw [hexpr₂]
    split
    · rfl
    · rename_i hj
      rw [hexpr₁, if_neg hj]

def filed (text : String) (stamp : Stamp) (ids : List TaskId) (now : Instant) : Expression :=
  { Expression.create text stamp with taskIds := ids, updatedAt := now }

theorem submit_eq_of_ok (h : c.store.Sound c.times) {text : String} {f : Formula}
    (hp : Formula.parse text = .ok f) {stamp : Stamp} {stamps : Nat → Stamp} (now : Instant)
    (hnew : c.store.expressions[(⟨stamp.uuid⟩ : ExpressionId)]? = none)
    (hn : ((f.plan c.times ⟨stamp.uuid⟩ stamps).map Task.id).Nodup)
    (hf : ∀ t ∈ f.plan c.times ⟨stamp.uuid⟩ stamps, c.store.tasks.get? t.id = none) :
    ∃ o s', c.submit text stamp stamps now = (.ok ⟨stamp.uuid⟩, { c with store := s' }) ∧
      s'.tasks = c.store.tasks.arrived (f.plan c.times ⟨stamp.uuid⟩ stamps) ∧
      s'.tasks.Holds c.times ⟨stamp.uuid⟩ stamps f ∧
      Outcome.ofTasks (s'.tasksOf ⟨stamp.uuid⟩) = .ok o ∧
      ∀ j : ExpressionId, s'.expressions[j]? = if ⟨stamp.uuid⟩ = j
        then
          some ((filed text stamp ((f.plan c.times ⟨stamp.uuid⟩ stamps).map Task.id) now).recomputed
            o now)
        else c.store.expressions[j]? := by
  have hids : c.store.tasks.idsOf ⟨stamp.uuid⟩ = [] :=
    Store.idsOf_eq_nil h.table.indexed h.owner hnew
  have hholds : (c.store.tasks.arrived (f.plan c.times ⟨stamp.uuid⟩ stamps)).Holds c.times
      ⟨stamp.uuid⟩ stamps f :=
    .of_standing rfl (TaskTable.standing_ofOwner_arrived hn (fun t ht => Plan.owner_of_mem ht) hids)
  obtain ⟨o, ho⟩ := hholds.exists_outcome (h.table.arrived_plan hn hf)
  have he : (c.store.createExpression text stamp).2.expressions[(⟨stamp.uuid⟩ : ExpressionId)]? =
      some (Expression.create text stamp) := by
    rw [Store.getElem?_createExpression, if_pos rfl]
  obtain ⟨s', hs', htasks, hexpr⟩ := launch_eq (s := (c.store.createExpression text stamp).2) he hn
    hf ho now
  refine ⟨o, s', ?_, htasks, htasks ▸ hholds, ?_, fun j => ?_⟩
  · simp only [submit, hp]
    have hid : (c.store.createExpression text stamp).1.id = ⟨stamp.uuid⟩ := rfl
    rw [hid, checkShape_plan f hn]
    simp only [hs']
  · rw [Store.tasksOf, htasks]
    exact ho
  · rw [hexpr]
    split
    · rfl
    · rename_i hj
      rw [Store.getElem?_createExpression, if_neg hj]

end Coordinator

end Reckoner
