import Reckoner.Proofs.Coordinator.Sound

/-!
# Reports are taken whole

A report is a task written, then an expression recomputed from its tasks. Only the look-up of the
task can fail, and it comes first: what a reachable state stores for a task is enough for all the
rest.
-/

namespace Reckoner.Coordinator

variable {c : Coordinator}

/--
Each step of a report for the task goes through: `s` is the store when the task is written, `o` what
its tasks then say about `e`, the expression that owns it.
-/
structure Takes (c : Coordinator) (t : Task) (r : Report) (now : Instant) (e : Expression)
    (s : Store) (o : Outcome) (c' : Coordinator) : Prop where
  expression : c.store.expressions[t.owner]? = some e
  mem_taskIds : t.id ∈ e.taskIds
  update : c.store.updateTask (r.apply t now) = .ok s
  expressions : s.expressions = c.store.expressions
  outcome : Outcome.ofTasks (s.tasksOf t.owner) = .ok o
  recompute : s.recompute t.owner now = .ok ((e.recomputed o now).status, c'.store)
  tasks : c'.store.tasks = s.tasks
  lookup : c'.store.expression t.owner = .ok (e.recomputed o now)
  owner : (e.recomputed o now).id = t.owner
  report : c.report t.id r now = (.ok (e.recomputed o now), c')

theorem exists_takes (h : c.store.Sound c.times) {t : Task} (ht : c.store.tasks.get? t.id = some t)
    (r : Report) (now : Instant) : ∃ e s o c', c.Takes t r now e s o c' := by
  obtain ⟨e, f, stamps, o, s', he, hid, -, ho, hs', htasks, hexpr⟩ := recompute_reported h ht r now
  have he' : s'.expressions[t.owner]? = some (e.recomputed o now) :=
    (hexpr t.owner).trans (if_pos rfl)
  refine ⟨e, { c.store with tasks := c.store.tasks.reported t r now }, o,
    { c with store := s' }, ?_⟩
  exact {
    expression := he
    mem_taskIds := by
      rw [h.taskIds_eq he, hid]
      exact h.table.indexed.mem_idsOf.2 ⟨t, ht, rfl⟩
    update := Store.updateTask_apply ht r now
    expressions := rfl
    outcome := ho
    recompute := hs'
    tasks := htasks
    lookup := Store.expression_eq_ok.2 he'
    owner := (e.recomputed_fields o now).1.trans hid
    report := report_eq_of_recompute ht hs' he' }

/--
In every reachable state a report is refused exactly when its task is not stored, with that fault
and without a change. For a stored task the expression that owns it comes back: writing the task,
the outcome of the tasks and recomputing the expression all succeed, so no report is taken half.
-/
theorem report_error_iff (hc : c.Reachable) (i : TaskId) (r : Report) (now : Instant) :
    (∀ fault c', c.report i r now = (.error fault, c') ↔
      c.store.tasks.get? i = none ∧ fault = .taskNotFound i ∧ c' = c) ∧
    ∀ t, c.store.tasks.get? i = some t → t.id = i ∧ ∃ e s o c', c.Takes t r now e s o c' := by
  have hstored : ∀ t, c.store.tasks.get? i = some t →
      t.id = i ∧ ∃ e s o c', c.Takes t r now e s o c' := by
    intro t ht
    cases hc.sound.table.indexed.id_eq ht
    exact ⟨rfl, exists_takes hc.sound ht r now⟩
  refine ⟨fun fault c' => ?_, hstored⟩
  cases ht : c.store.tasks.get? i with
  | none =>
    rw [report_eq_of_unknown ht, Prod.mk.injEq, Except.error.injEq]
    exact ⟨fun ⟨hf, hc'⟩ => ⟨rfl, hf.symm, hc'.symm⟩, fun ⟨_, hf, hc'⟩ => ⟨hf.symm, hc'.symm⟩⟩
  | some t =>
    obtain ⟨rfl, e, s, o, c₁, htakes⟩ := hstored t ht
    rw [htakes.report]
    constructor
    · intro hr
      cases hr
    · rintro ⟨hnone, -⟩
      cases hnone

/-- The division of a quotient is reported, and a task that nobody has planned. -/
theorem report_error_iff_of_quotient :
    let c := (initial .instant none).run [.submitText "6/2" 0,
      .nextTask (Evaluation.clock 1) (Evaluation.clock 2)]
    c.report (Id.ofNat 9) (.completed 3.0) (Evaluation.clock 3) =
      (.error (.taskNotFound (Id.ofNat 9)), c) ∧
      ∃ (e : Expression) (s : Store) (o : Outcome) (c' : Coordinator),
        c.report (Id.ofNat 3) (.completed 3.0) (Evaluation.clock 3) = (.ok e, c') ∧
        e.status = .completed ∧ s.recompute (Id.ofNat 0) (Evaluation.clock 3) =
          .ok (.completed, c'.store) ∧
        Outcome.ofTasks (s.tasksOf (Id.ofNat 0)) = .ok o := by
  intro c
  have hc : c.Reachable := ⟨.instant, none, _, by decide, rfl⟩
  obtain ⟨hrefused, -⟩ := report_error_iff hc (Id.ofNat 9) (.completed 3.0) (Evaluation.clock 3)
  refine ⟨(hrefused _ c).2 ⟨by decide, rfl, rfl⟩, ?_⟩
  have hknown : (c.store.tasks.get? (Id.ofNat 3)).map Task.owner = some (Id.ofNat 0) := by decide
  have hstatus : (c.report (Id.ofNat 3) (.completed 3.0) (Evaluation.clock 3)).1.map
      Expression.status =
        .ok .completed := by decide
  obtain ⟨t, ht, ho⟩ := Option.map_eq_some_iff.1 hknown
  obtain ⟨hid, e, s, o, c', htakes⟩ :=
    (report_error_iff hc (Id.ofNat 3) (.completed 3.0) (Evaluation.clock 3)).2 t ht
  have hreport := htakes.report
  rw [hid] at hreport
  rw [hreport] at hstatus
  have hcompleted : (e.recomputed o (Evaluation.clock 3)).status = .completed :=
    Except.ok.inj hstatus
  exact ⟨_, s, o, c', hreport, hcompleted, hcompleted ▸ ho ▸ htakes.recompute, ho ▸ htakes.outcome⟩

end Reckoner.Coordinator
