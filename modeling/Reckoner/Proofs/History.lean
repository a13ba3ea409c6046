import Reckoner.Proofs.Coordinator.Sound

/-!
# Histories

What an expression shows is a function of the reports for its tasks (`Plan.verdict`): it fails with
the first failure that is reported, or is completed by the first report that leaves every task with
a result, whichever comes first, and stays so. Histories list the latest report first.
-/

namespace Reckoner

/-! ## Reports for an expression -/

/-- The reports of a run for the given tasks, latest first. -/
def reportsFor (ids : List TaskId) (calls : List Call) : List (TaskId × Report) :=
  (calls.filterMap fun
    | .report i r _ => if i ∈ ids then some (i, r) else none
    | _ => none).reverse

def Task.resultAfter (t : Task) : List (TaskId × Report) → Option Float
  | [] => t.completedResult
  | (i, r) :: earlier => if i = t.id then r.result? else t.resultAfter earlier

/-- What an expression shows before the first report. -/
def Formula.initial : Formula → Outcome
  | number v => .resolved v
  | binary _ _ _ => .inProgress

/-- What the reports for the tasks of a plan say about its expression. -/
def Plan.verdict (p : Plan) (initial : Outcome) : List (TaskId × Report) → Outcome
  | [] => initial
  | (i, r) :: earlier =>
    if p.verdict initial earlier = .inProgress then
      match r with
      | .failed m => .failed m
      | .completed _ =>
        if p.tasks.all fun t => (t.resultAfter ((i, r) :: earlier)).isSome then
          (p.root.resultAfter ((i, r) :: earlier)).elim .inProgress .resolved
        else .inProgress
    else p.verdict initial earlier

namespace Expression

def Shows (e : Expression) : Outcome → Prop
  | .failed m => e.status = .failed ∧ e.result = none ∧ e.error = some m
  | .resolved v => e.status = .completed ∧ e.result = some v ∧ e.error = none
  | .inProgress => e.status = .computing ∧ e.result = none ∧ e.error = none

theorem shows_recomputed {e : Expression} (hs : e.status.isTerminal = false) (hr : e.result = none)
    (he : e.error = none) (o : Outcome) (now : Instant) : (e.recomputed o now).Shows o := by
  unfold recomputed
  rw [if_neg (by simp [hs])]
  cases o with
  | failed m => exact ⟨rfl, rfl, rfl⟩
  | resolved v => exact ⟨rfl, rfl, rfl⟩
  | inProgress =>
    simp only [startComputing]
    split
    · exact ⟨rfl, hr, he⟩
    · rename_i hp
      refine ⟨?_, hr, he⟩
      cases hst : e.status with
      | pending => exact absurd hst hp
      | computing => rfl
      | completed => rw [hst] at hs; cases hs
      | failed => rw [hst] at hs; cases hs

theorem Shows.terminal {e : Expression} {o : Outcome} (h : e.Shows o) (ho : o ≠ .inProgress) :
    e.status.isTerminal = true := by
  cases o with
  | failed m => rw [h.1]; rfl
  | resolved v => rw [h.1]; rfl
  | inProgress => exact absurd rfl ho

end Expression

section
variable {ids : List TaskId} {calls : List Call} {i : TaskId} {r : Report} {now : Instant}

theorem reportsFor_snoc_of_mem (hi : i ∈ ids) :
    reportsFor ids (calls ++ [.report i r now]) = (i, r) :: reportsFor ids calls := by
  simp [reportsFor, hi]

theorem reportsFor_snoc_of_not_mem (hi : i ∉ ids) :
    reportsFor ids (calls ++ [.report i r now]) = reportsFor ids calls := by
  simp [reportsFor, hi]

theorem reportsFor_snoc {call : Call} (h : ∀ i r now, call ≠ .report i r now) :
    reportsFor ids (calls ++ [call]) = reportsFor ids calls := by
  cases call with
  | report i r now => exact absurd rfl (h i r now)
  | _ => simp [reportsFor]

end

namespace Plan

variable {p : Plan} {initial : Outcome} {earlier : List (TaskId × Report)} {i : TaskId} {r : Report}

theorem verdict_of_final (h : p.verdict initial earlier ≠ .inProgress) :
    p.verdict initial ((i, r) :: earlier) = p.verdict initial earlier := if_neg h

theorem verdict_failed {m : String} (h : p.verdict initial earlier = .inProgress) :
    p.verdict initial ((i, .failed m) :: earlier) = .failed m := if_pos h

theorem verdict_waiting {v : Float} (h : p.verdict initial earlier = .inProgress) {t : Task}
    (ht : t ∈ p.tasks) (hr : t.resultAfter ((i, .completed v) :: earlier) = none) :
    p.verdict initial ((i, .completed v) :: earlier) = .inProgress := by
  refine (if_pos h).trans (if_neg fun hall => ?_)
  have := List.all_eq_true.1 hall t ht
  rw [hr] at this
  cases this

theorem verdict_resolved {v w : Float} (h : p.verdict initial earlier = .inProgress)
    (hall : ∀ t ∈ p.tasks, (t.resultAfter ((i, .completed v) :: earlier)).isSome)
    (hr : p.root.resultAfter ((i, .completed v) :: earlier) = some w) :
    p.verdict initial ((i, .completed v) :: earlier) = .resolved w := by
  refine (if_pos h).trans ((if_pos (List.all_eq_true.2 hall)).trans ?_)
  rw [hr]
  rfl

end Plan

/-! ## What stores record -/

structure Store.Recorded (s : Store) (times : OperationTimes) (text : String) (owner : ExpressionId)
    (stamps : Nat → Stamp) (f : Formula) (history : List (TaskId × Report)) : Prop where
  holds : s.tasks.Holds times owner stamps f
  results : ∀ t ∈ f.plan times owner stamps, s.tasks.resultOf t.id = t.resultAfter history
  expression : ∃ e, s.expressions[owner]? = some e ∧ e.text = text ∧
    e.taskIds = (f.plan times owner stamps).map Task.id ∧
    e.Shows ((Plan.ofFormula times owner stamps 0 f).verdict f.initial history)

namespace Store.Recorded

variable {s s' : Store} {times : OperationTimes} {text : String} {owner : ExpressionId}
  {stamps : Nat → Stamp} {f : Formula} {history : List (TaskId × Report)}
  (h : s.Recorded times text owner stamps f history)
include h

theorem congr (hs : s.Sound times) (he : s'.expressions[owner]? = s.expressions[owner]?)
    (hids : s'.tasks.idsOf owner = s.tasks.idsOf owner)
    (hget : ∀ i ∈ s.tasks.idsOf owner,
      (s'.tasks.get? i).map Task.standing = (s.tasks.get? i).map Task.standing) :
    s'.Recorded times text owner stamps f history where
  holds := .of_standing h.holds (TaskTable.map_ofOwner_congr hids hget)
  results t ht := by
    have hm : t.id ∈ s.tasks.idsOf owner := by
      rw [← hs.table.indexed.ids_ofOwner, h.holds.ids_ofOwner]
      exact List.mem_map_of_mem ht
    rw [TaskTable.resultOf_eq, hget _ hm, ← TaskTable.resultOf_eq, h.results t ht]
  expression := by
    rw [he]
    exact h.expression

theorem not_failed (hs : s.Sound times)
    (hv : (Plan.ofFormula times owner stamps 0 f).verdict f.initial history = .inProgress) :
    ∀ t ∈ s.tasksOf owner, t.status ≠ .failed := by
  obtain ⟨e, he, -, -, hshows⟩ := h.expression
  rw [hv] at hshows
  have hid := hs.id_eq he
  rcases hs.filed he with hr | ⟨g, stamps', ha⟩
  · cases hr.status.symm.trans hshows.1
  · rw [← hid]
    exact (ha.follows.computing hshows.1).1

end Store.Recorded

namespace TaskTable.Holds

theorem initial_eq {table : TaskTable} {times : OperationTimes} {owner : ExpressionId}
    {stamps : Nat → Stamp} {f : Formula} (h : table.Holds times owner stamps f) (hs : table.Sound)
    (hstanding : ∀ t ∈ f.plan times owner stamps,
      (table.get? t.id).map Task.standing = some t.standing)
    {o : Outcome} (ho : Outcome.ofTasks (table.ofOwner owner) = .ok o) : f.initial = o := by
  have hresults : ∀ t ∈ f.plan times owner stamps, table.resultOf t.id = t.completedResult := by
    intro t ht
    rw [resultOf_eq, hstanding t ht, Option.bind_some, Task.completedResult_standing]
  rcases h.outcome_cases hs with ⟨u, hu, hfail, -⟩ | ⟨-, ⟨t, ht, hw⟩, ho'⟩ | ⟨-, -, w, hw, ho'⟩
  · obtain ⟨t, ht, hid⟩ := h.exists_mem_plan hu
    have hst := hstanding t ht
    rw [hid, (hs.indexed.mem_ofOwner.1 hu).1] at hst
    exact absurd ((Task.failed_iff_of_standing_eq (Option.some.inj hst)).1 hfail)
      (Plan.not_failed_of_mem ht)
  · cases ho.symm.trans ho'
    cases f with
    | number v =>
      cases List.mem_singleton.1 ht
      cases (hresults _ ht).symm.trans hw
    | binary op left right => rfl
  · cases ho.symm.trans ho'
    have hroot := (hresults _ (Plan.root_mem_tasks _)).symm.trans hw
    cases f with
    | number v =>
      cases hroot
      rfl
    | binary op left right => cases hroot

theorem verdict_eq {table : TaskTable} {times : OperationTimes} {stamps : Nat → Stamp} {f : Formula}
    {t : Task} (h : table.Holds times t.owner stamps f) (ht : table.get? t.id = some t)
    (hs : table.Sound) (hfail : ∀ u ∈ table.ofOwner t.owner, u.status ≠ .failed) {r : Report}
    {now : Instant} {history : List (TaskId × Report)}
    (hresults : ∀ u ∈ f.plan times t.owner stamps,
      (table.reported t r now).resultOf u.id = u.resultAfter ((t.id, r) :: history))
    (hv : (Plan.ofFormula times t.owner stamps 0 f).verdict f.initial history = .inProgress)
    {o : Outcome} (ho : Outcome.ofTasks ((table.reported t r now).ofOwner t.owner) = .ok o) :
    (Plan.ofFormula times t.owner stamps 0 f).verdict f.initial ((t.id, r) :: history) = o := by
  -- a failure that is reported is there to be seen
  have completed : (∀ u ∈ (table.reported t r now).ofOwner t.owner, u.status ≠ .failed) →
      ∃ v, r = .completed v := by
    intro hnone
    cases r with
    | completed v => exact ⟨v, rfl⟩
    | failed m =>
      obtain ⟨u, hu, hst⟩ := exists_mem_reported ht (.failed m) now hs
      exact absurd ((Task.failed_iff_of_standing_eq hst).2 rfl) (hnone u hu)
  rcases (h.reported ht r now hs.indexed).outcome_cases (.reported ht r now hs) with
    ⟨u, hu, huf, m, hm, ho'⟩ | ⟨hnone, ⟨u, hu, hw⟩, ho'⟩ | ⟨hnone, hall, w, hw, ho'⟩
  · -- nothing had failed, so what has failed now is the reported task
    cases ho.symm.trans ho'
    obtain ⟨m', rfl, hm'⟩ := failed_of_reported ht r now hs hfail hu huf
    cases hm.symm.trans hm'
    exact Plan.verdict_failed hv
  · cases ho.symm.trans ho'
    obtain ⟨v, rfl⟩ := completed hnone
    exact Plan.verdict_waiting hv hu ((hresults u hu).symm.trans hw)
  · cases ho.symm.trans ho'
    obtain ⟨v, rfl⟩ := completed hnone
    exact Plan.verdict_resolved hv (fun u hu => hresults u hu ▸ hall u hu)
      ((hresults _ (Plan.root_mem_tasks _)).symm.trans hw)

end TaskTable.Holds

namespace Coordinator

variable {c : Coordinator} {times : OperationTimes} {text : String} {owner : ExpressionId}
  {stamps : Nat → Stamp} {f : Formula} {history : List (TaskId × Report)}

theorem recorded_report (h : c.store.Recorded times text owner stamps f history)
    (hs : c.store.Sound times) {t : Task} (ht : c.store.tasks.get? t.id = some t)
    (howner : t.owner = owner) (r : Report) (now : Instant) :
    (c.report t.id r now).2.store.Recorded times text owner stamps f ((t.id, r) :: history) := by
  subst howner
  obtain ⟨e, g, stamps', o, s', he, hid, -, htasks, ho, hs', hexpr⟩ := report_eq hs ht r now
  obtain ⟨e', he', htext, hids, hshows⟩ := h.expression
  cases he.symm.trans he'
  have hresults : ∀ u ∈ f.plan times t.owner stamps,
      (c.store.tasks.reported t r now).resultOf u.id = u.resultAfter ((t.id, r) :: history) := by
    intro u hu
    rw [TaskTable.resultOf_reported, Task.resultAfter, h.results u hu]
  obtain ⟨-, htext', hids'⟩ := e.recomputed_fields o now
  rw [hs']
  refine ⟨htasks ▸ h.holds.reported ht r now hs.table.indexed, htasks ▸ hresults,
    e.recomputed o now,
    (hexpr _).trans (if_pos hid), htext'.trans htext, hids'.trans hids, ?_⟩
  by_cases hv : (Plan.ofFormula times t.owner stamps 0 f).verdict f.initial history = .inProgress
  · rw [hid, Store.tasksOf, htasks] at ho
    rw [h.holds.verdict_eq ht hs.table (h.not_failed hs hv) hresults hv ho]
    rw [hv] at hshows
    obtain ⟨hstatus, hresult, herror⟩ := hshows
    exact Expression.shows_recomputed (by rw [hstatus]; rfl) hresult herror o now
  · rw [e.recomputed_of_terminal o now (hshows.terminal hv), Plan.verdict_of_final hv]
    exact hshows

theorem recorded_submit (hs : c.store.Sound c.times) (hp : Formula.parse text = .ok f)
    {stamp : Stamp} {now : Instant} (hf : (Call.submit text stamp stamps now).Fresh c.store) :
    (c.submit text stamp stamps now).1 = .ok ⟨stamp.uuid⟩ ∧
      (c.submit text stamp stamps now).2.store.Recorded c.times text ⟨stamp.uuid⟩ stamps f [] := by
  obtain ⟨hn, hold⟩ := hf.plan hp c.times ⟨stamp.uuid⟩
  obtain ⟨o, s', hs', htasks, hholds, ho, hexpr⟩ :=
    submit_eq_of_ok hs hp now (hf.expressions _ Call.stamp_mem_draws) hn hold
  have hstanding : ∀ t ∈ f.plan c.times ⟨stamp.uuid⟩ stamps,
      (s'.tasks.get? t.id).map Task.standing = some t.standing := by
    intro t ht
    rw [htasks, c.store.tasks.standing_arrived_of_mem hn ht]
  rw [hs']
  refine ⟨rfl, hholds, fun t ht => ?_, _, (hexpr _).trans (if_pos rfl), ?_, ?_, ?_⟩
  · rw [TaskTable.resultOf_eq, hstanding t ht, Option.bind_some, Task.completedResult_standing]
    rfl
  · exact (Expression.recomputed_fields _ o now).2.1
  · exact (Expression.recomputed_fields _ o now).2.2
  · rw [Plan.verdict, hholds.initial_eq (htasks ▸ hs.table.arrived_plan hn hold) hstanding ho]
    exact Expression.shows_recomputed rfl rfl rfl o now

/--
Every call is recorded: by its report if it is one for a task of the expression, else not at all.
-/
theorem recorded_after {calls : List Call} (h : c.store.Recorded times text owner stamps f
      (reportsFor ((f.plan times owner stamps).map Task.id) calls))
    (ht : c.times = times) (hs : c.store.Sound c.times) {call : Call} (hf : call.Fresh c.store) :
    (c.after call).store.Recorded times text owner stamps f
      (reportsFor ((f.plan times owner stamps).map Task.id) (calls ++ [call])) := by
  subst ht
  obtain ⟨e, he, -⟩ := h.expression
  cases call with
  | submit text' stamp stamps' now =>
    rw [reportsFor_snoc (by simp)]
    have hne : (⟨stamp.uuid⟩ : ExpressionId) ≠ owner := by
      rintro rfl
      rw [hf.expressions _ Call.stamp_mem_draws] at he
      cases he
    simp only [after]
    cases hp : Formula.parse text' with
    | error cause =>
      obtain ⟨s', hs', htasks, hexpr⟩ := submit_eq_of_error c hp stamp stamps' now
      rw [hs']
      exact h.congr hs ((hexpr owner).trans (if_neg hne)) (by rw [htasks]) fun i _ => by rw [htasks]
    | ok g =>
      obtain ⟨hn, hold⟩ := hf.plan hp c.times ⟨stamp.uuid⟩
      obtain ⟨o, s', hs', htasks, -, -, hexpr⟩ :=
        submit_eq_of_ok hs hp now (hf.expressions _ Call.stamp_mem_draws) hn hold
      obtain ⟨hids, hget⟩ := TaskTable.standing_arrived_of_ne hs.table.indexed hold (o := owner)
        fun t ht => Plan.owner_of_mem ht ▸ hne
      rw [hs']
      exact h.congr hs ((hexpr owner).trans (if_neg hne)) (by rw [htasks, hids]) fun i hi =>
        by rw [htasks, hget i hi]
  | nextTask asked started =>
    rw [reportsFor_snoc (by simp)]
    obtain ⟨-, hc⟩ := calm_nextTask hs.table asked started
    exact h.congr hs (by rw [after, expressions_nextTask]) (hc.idsOf owner) fun i _ => hc.standing i
  | requeue now =>
    rw [reportsFor_snoc (by simp)]
    obtain ⟨-, hc⟩ := calm_requeueOverdue hs.table now
    exact h.congr hs rfl (hc.idsOf owner) fun i _ => hc.standing i
  | report i r now =>
    -- a report counts when its task is the expression's own, and then the plan has the task
    have hstored : ∀ {j}, j ∈ (f.plan c.times owner stamps).map Task.id →
        ∃ u, c.store.tasks.get? j = some u ∧ u.owner = owner := by
      intro j hj
      obtain ⟨t, ht, rfl⟩ := List.mem_map.1 hj
      obtain ⟨u, hu, ho, -⟩ := h.holds.get?_of_mem_plan hs.table.indexed ht
      exact ⟨u, hu, ho⟩
    simp only [after]
    cases ht : c.store.tasks.get? i with
    | none =>
      rw [report_eq_of_unknown ht, reportsFor_snoc_of_not_mem]
      · exact h
      · intro hi
        obtain ⟨u, hu, -⟩ := hstored hi
        rw [ht] at hu
        cases hu
    | some t =>
      cases hs.table.indexed.id_eq ht
      by_cases ho : t.owner = owner
      · rw [reportsFor_snoc_of_mem]
        · exact recorded_report h hs ht ho r now
        · rw [← h.holds.ids_ofOwner]
          exact List.mem_map_of_mem (hs.table.indexed.mem_ofOwner.2 ⟨ht, ho⟩)
      · rw [reportsFor_snoc_of_not_mem]
        · obtain ⟨e', g, stamps', o, s', -, hid, -, htasks, -, hs', hexpr⟩ := report_eq hs ht r now
          rw [hs']
          refine h.congr hs ((hexpr owner).trans (if_neg (hid ▸ ho))) ?_ fun i hi => ?_
          · rw [htasks, TaskTable.idsOf_reported]
          · rw [htasks, TaskTable.standing_reported_of_ne ht r now hs.table.indexed ho i hi]
        · intro hi
          obtain ⟨u, hu, huo⟩ := hstored hi
          cases ht.symm.trans hu
          exact ho huo

theorem final_after (hs : c.store.Sound c.times) {call : Call} (hf : call.Fresh c.store)
    {i : ExpressionId} {e : Expression} (he : c.store.expressions[i]? = some e)
    (ht : e.status.isTerminal = true) : (c.after call).store.expressions[i]? = some e := by
  cases call with
  | submit text stamp stamps now =>
    have hne : (⟨stamp.uuid⟩ : ExpressionId) ≠ i := by
      rintro rfl
      rw [hf.expressions _ Call.stamp_mem_draws] at he
      cases he
    obtain ⟨e', -, -, -, hexpr⟩ := expressions_submit hs hf
    rw [after, hexpr, if_neg hne, he]
  | nextTask asked started => rw [after, expressions_nextTask, he]
  | requeue now => exact he
  | report id r now =>
    simp only [after]
    cases hget : c.store.tasks.get? id with
    | none => rw [report_eq_of_unknown hget, he]
    | some t =>
      obtain ⟨e', f, stamps, o, s', he', hid, -, -, -, hs', hexpr⟩ := report_eq hs hget r now
      rw [hs', hexpr]
      split
      · rename_i hi
        rw [← hid, hi, he] at he'
        cases he'
        rw [e.recomputed_of_terminal o now ht]
      · exact he

theorem recompute_of_terminal {s : Store} {i : ExpressionId} {e : Expression}
    (he : s.expressions[i]? = some e) (ht : e.status.isTerminal = true) (now : Instant) :
    s.recompute i now = .ok (e.status, s) := by
  simp only [Store.recompute, Store.expression_eq_ok.2 he, bind, Except.bind, if_pos ht]
  rfl

/-! ## Runs -/

section
variable (times : OperationTimes) (lease : Option Duration) {calls more : List Call}

theorem recorded_run {stamp : Stamp} {now : Instant} (hp : Formula.parse text = .ok f)
    (hd : ((calls ++ .submit text stamp stamps now :: more).flatMap Call.draws).Nodup) :
    (((initial times lease).run calls).submit text stamp stamps now).1 = .ok ⟨stamp.uuid⟩ ∧
      ((initial times lease).run (calls ++ .submit text stamp stamps now :: more)).store.Recorded
        times text
        ⟨stamp.uuid⟩ stamps f
          (reportsFor ((f.plan times ⟨stamp.uuid⟩ stamps).map Task.id) more) := by
  rw [List.append_cons] at hd ⊢
  have hsubmit : ((calls ++ [Call.submit text stamp stamps now]).flatMap Call.draws).Nodup := by
    rw [List.flatMap_append] at hd
    exact hd.of_append_left
  have hcalls : (calls.flatMap Call.draws).Nodup := by
    rw [List.flatMap_append] at hsubmit
    exact hsubmit.of_append_left
  obtain ⟨hok, hstart⟩ :=
    recorded_submit (sound_run times lease hcalls) hp (fresh_run times lease hsubmit)
  rw [times_run] at hstart
  refine ⟨hok, run_induction times lease (calls ++ [Call.submit text stamp stamps now])
    (P := fun more =>
      ((initial times lease).run ((calls ++ [.submit text stamp stamps now]) ++
        more)).store.Recorded
      times text ⟨stamp.uuid⟩ stamps f
      (reportsFor ((f.plan times ⟨stamp.uuid⟩ stamps).map Task.id) more))
    ?_ ?_ hd⟩
  · rw [List.append_nil, run_snoc]
    exact hstart
  · rintro more call _ rfl hs hf h
    rw [← List.append_assoc, run_snoc]
    exact recorded_after h (times_run ..) hs hf

theorem final_run (hd : ((calls ++ more).flatMap Call.draws).Nodup) {i : ExpressionId}
    {e : Expression} (he : ((initial times lease).run calls).store.expressions[i]? = some e)
    (ht : e.status.isTerminal = true) :
    ((initial times lease).run (calls ++ more)).store.expressions[i]? = some e := by
  refine run_induction times lease calls (P := fun more =>
    ((initial times lease).run (calls ++ more)).store.expressions[i]? = some e) ?_ ?_ hd
  · rw [List.append_nil]
    exact he
  · rintro more call _ rfl hs hf h
    rw [← List.append_assoc, run_snoc]
    exact final_after hs hf h ht

end

/--
An accepted expression shows the verdict of the reports for its tasks since its submission, and each
task has the result of the latest report for it. Once the expression is final no later call changes
it, and neither hand-outs nor the return of tasks ever change an expression.
-/
theorem shows_verdict (times : OperationTimes) (lease : Option Duration) (earlier later : List Call)
    {text : String} (stamp : Stamp) (stamps : Nat → Stamp) (now : Instant) {f : Formula}
    (hp : Formula.parse text = .ok f)
    (hd : ((earlier ++ .submit text stamp stamps now :: later).flatMap Call.draws).Nodup) :
    let p := Plan.ofFormula times ⟨stamp.uuid⟩ stamps 0 f
    let calls := earlier ++ .submit text stamp stamps now :: later
    let c := (initial times lease).run calls
    (((initial times lease).run earlier).submit text stamp stamps now).1 = .ok ⟨stamp.uuid⟩ ∧
    ∃ e, c.store.expressions[(⟨stamp.uuid⟩ : ExpressionId)]? = some e ∧ e.text = text ∧
      e.taskIds = p.tasks.map Task.id ∧ e.Shows (p.verdict f.initial (reportsFor e.taskIds later)) ∧
      (∀ t ∈ p.tasks, c.store.tasks.resultOf t.id = t.resultAfter (reportsFor e.taskIds later)) ∧
      (e.status.isTerminal = true →
        (∀ more, ((calls ++ more).flatMap Call.draws).Nodup →
          (c.run more).store.expressions[(⟨stamp.uuid⟩ : ExpressionId)]? = some e) ∧
        ∀ now, c.store.recompute ⟨stamp.uuid⟩ now = .ok (e.status, c.store)) ∧
      (∀ asked started, (c.nextTask asked started).2.store.expressions = c.store.expressions) ∧
      ∀ now, (c.requeueOverdue now).2.store.expressions = c.store.expressions := by
  intro p calls c
  obtain ⟨hok, -, hresults, e, he, htext, hids, hshows⟩ := recorded_run times lease hp hd
  refine ⟨hok, e, he, htext, hids, hids ▸ hshows, hids ▸ hresults, fun ht =>
    ⟨fun more hmore => ?_, ?_⟩, ?_, ?_⟩
  · rw [← run_append]
    exact final_run times lease hmore he ht
  · exact recompute_of_terminal he ht
  · exact expressions_nextTask c
  · exact fun _ => rfl

/--
The root is reported before its operands are known, and once more when the expression is final.
-/
theorem shows_verdict_of_early_root :
    let c := (initial .instant none).run [.submitText "1+2*3" 0,
      .report (Id.ofNat 5) (.completed 9.0) (Evaluation.clock 1),
      .nextTask (Evaluation.clock 2) (Evaluation.clock 3),
      .report (Id.ofNat 4) (.completed 6.0) (Evaluation.clock 4),
      .report (Id.ofNat 5) (.failed "late") (Evaluation.clock 5)]
    ∃ e, c.store.expressions[(Id.ofNat 0 : ExpressionId)]? = some e ∧ e.Shows (.resolved 9.0) := by
  intro c
  have hp : Formula.parse "1+2*3" =
      .ok (.binary .add (.number 1.0) (.binary .mul (.number 2.0) (.number 3.0))) := by rfl
  obtain ⟨-, e, he, -, hids, hshows, -⟩ := shows_verdict .instant none [] [
      .report (Id.ofNat 5) (.completed 9.0) (Evaluation.clock 1),
      .nextTask (Evaluation.clock 2) (Evaluation.clock 3),
      .report (Id.ofNat 4) (.completed 6.0) (Evaluation.clock 4),
      .report (Id.ofNat 5) (.failed "late") (Evaluation.clock 5)]
    (Evaluation.stamp 0) (fun k => Evaluation.stamp (1 + k)) (Evaluation.clock 0) hp (by decide)
  rw [hids] at hshows
  exact ⟨e, he, hshows⟩

end Coordinator

end Reckoner
