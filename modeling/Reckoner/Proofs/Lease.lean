import Reckoner.Proofs.Coordinator.Tables

/-!
# One worker at a time

A task that is finished, or with a worker whose lease has not run out, is withheld from hand-outs,
and every call keeps it so. A report that is recorded finishes its task for good. So a task goes out
a second time only after its lease has run out, and never after a report.
-/

namespace Reckoner

def Call.sweep? : Call → Option Instant
  | nextTask asked _ => some asked
  | requeue now => some now
  | _ => none

def Task.custody (t : Task) : TaskStatus × Option Instant := (t.status, t.startedAt)

namespace Coordinator

def records (c : Coordinator) : Call → Option TaskId
  | .report i _ _ => (c.store.tasks.get? i).map fun _ => i
  | _ => none

def recorded (c : Coordinator) : List Call → List TaskId
  | [] => []
  | call :: rest => (c.records call).toList ++ (c.after call).recorded rest

/-! ## One call -/

section
variable {c : Coordinator} {i : TaskId}

theorem custody_submit (text : String) (stamp : Stamp) (stamps : Nat → Stamp) (now : Instant)
    {t : Task} (ht : c.store.tasks.get? i = some t) :
    ((c.submit text stamp stamps now).2.store.tasks.get? i).map Task.custody = some t.custody := by
  rcases tasks_submit c text stamp stamps now with e | ⟨f, -, hf, e⟩
  · rw [e, ht, Option.map_some]
  · rw [e, TaskTable.map_get?_arrived_of_not_mem (fun _ _ _ => rfl) _
      (TaskTable.not_mem_of_get? hf ht), ht,
      Option.map_some]

theorem custody_report (h : c.store.tasks.Indexed) {j : TaskId} (hj : j ≠ i) (r : Report)
    (now : Instant) :
    ((c.report j r now).2.store.tasks.get? i).map Task.custody =
      (c.store.tasks.get? i).map Task.custody := by
  cases hget : c.store.tasks.get? j with
  | none => rw [report_eq_of_unknown hget]
  | some u => rw [map_get?_report (fun _ _ _ => rfl) h hget, if_neg hj]

theorem isFinished_report (h : c.store.tasks.Indexed) {t : Task}
    (ht : c.store.tasks.get? i = some t) (r : Report) (now : Instant) :
    ∃ u, (c.report i r now).2.store.tasks.get? i = some u ∧
    u.isFinished = true := by
  have hf := map_get?_report (f := Task.isFinished) (fun _ _ _ => rfl) h ht r now i
  rw [if_pos rfl, r.isFinished_apply] at hf
  obtain ⟨u, hu, hfin⟩ := Option.map_eq_some_iff.1 hf
  exact ⟨u, hu, hfin⟩

/-! ## Withheld tasks -/

/-- The task is finished, or a worker has it whose lease runs out at none of the times. -/
def Withheld (c : Coordinator) (i : TaskId) (times : List Instant) : Prop :=
  ∃ t, c.store.tasks.get? i = some t ∧ (t.isFinished = true ∨ t.status = .processing ∧
    ∀ L started now, c.term = some L → t.startedAt = some started → now ∈ times →
      ¬ TaskTable.RunsOut L started now)

def Finished (c : Coordinator) (i : TaskId) : Prop :=
  ∃ t, c.store.tasks.get? i = some t ∧ t.isFinished = true

theorem Finished.withheld (h : c.Finished i) (times : List Instant) : c.Withheld i times := by
  obtain ⟨t, ht, hf⟩ := h
  exact ⟨t, ht, .inl hf⟩

theorem Withheld.mono {times times' : List Instant} (hw : c.Withheld i times)
    (hsub : ∀ now ∈ times', now ∈ times) : c.Withheld i times' := by
  obtain ⟨t, ht, hw⟩ := hw
  refine ⟨t, ht, hw.imp_right fun ⟨hp, hn⟩ => ⟨hp, fun L started now hL hs hm => ?_⟩⟩
  exact hn L started now hL hs (hsub now hm)

theorem Withheld.get?_requeueOverdue (h : c.store.tasks.Indexed) {now : Instant}
    (hw : c.Withheld i [now]) :
    (c.requeueOverdue now).2.store.tasks.get? i = c.store.tasks.get? i := by
  obtain ⟨t, ht, hw⟩ := hw
  refine (TaskTable.get?_requeueOverdue h c.term now i).trans ?_
  rw [ht, Option.map_some, if_neg]
  rw [Option.any_eq_true]
  rintro ⟨L, hL, ho⟩
  obtain ⟨hp, started, hs, hout⟩ := TaskTable.isOverdue_iff.1 ho
  rcases hw with hf | ⟨-, hn⟩
  · rcases Task.isFinished_iff.1 hf with e | e <;> rw [hp] at e <;> cases e
  · exact hn L started now hL hs (List.mem_singleton_self now) hout

/-- A call can do nothing with a withheld task but finish it. -/
theorem Withheld.after (h : c.store.tasks.Proper) {call : Call}
    (hw : c.Withheld i call.sweep?.toList) :
    ((c.after call).Finished i ∨ ((c.after call).store.tasks.get? i).map Task.custody =
      (c.store.tasks.get? i).map Task.custody) ∧ ∀ u, c.handsOut call = some u → u.id ≠ i := by
  have hi := h.sound.indexed
  cases call with
  | submit text stamp stamps now =>
    obtain ⟨t, ht, -⟩ := hw
    refine ⟨.inr ?_, fun u hu => by cases hu⟩
    rw [Coordinator.after, custody_submit text stamp stamps now ht, ht, Option.map_some]
  | nextTask asked started =>
    have hsweep := hw.get?_requeueOverdue hi
    obtain ⟨t, ht, hs⟩ := hw
    have hp : t.status ≠ .pending := by
      rcases hs with hf | ⟨hp, -⟩
      · exact Task.not_pending_of_isFinished hf
      · simp [hp]
    obtain ⟨hget, hne⟩ := nextTask_of_not_pending h.sound started (hsweep.trans ht) hp
    exact ⟨.inr (by rw [Coordinator.after, hget, ht]), hne⟩
  | requeue now =>
    exact ⟨.inr (by rw [Coordinator.after, hw.get?_requeueOverdue hi]), fun u hu => by cases hu⟩
  | report j r now =>
    refine ⟨?_, fun u hu => by cases hu⟩
    by_cases hj : j = i
    · subst hj
      obtain ⟨t, ht, -⟩ := hw
      exact .inl (isFinished_report hi ht r now)
    · exact .inr (custody_report hi hj r now)

theorem finished_after (h : c.store.tasks.Proper) (hf : c.Finished i) (call : Call) :
    (c.after call).Finished i := by
  rcases ((hf.withheld _).after h).1 with hf' | hc
  · exact hf'
  · obtain ⟨t, ht, hfin⟩ := hf
    rw [ht] at hc
    obtain ⟨u, hu, e⟩ := Option.map_eq_some_iff.1 hc
    refine ⟨u, hu, ?_⟩
    rw [Task.isFinished_iff, (Prod.mk.inj e).1, ← Task.isFinished_iff]
    exact hfin

theorem withheld_after (h : c.store.tasks.Proper) {call : Call} {rest : List Call}
    (hw : c.Withheld i ((call :: rest).filterMap Call.sweep?)) :
    (c.after call).Withheld i (rest.filterMap Call.sweep?) ∧ ∀ u, c.handsOut call = some u →
    u.id ≠ i := by
  have hnow : ∀ now ∈ call.sweep?.toList, now ∈ (call :: rest).filterMap Call.sweep? := by
    intro now hm
    exact List.mem_filterMap.2 ⟨call, List.mem_cons_self, Option.mem_toList.1 hm⟩
  obtain ⟨hc, hne⟩ := (hw.mono hnow).after h
  refine ⟨?_, hne⟩
  rcases hc with hf | hc
  · exact hf.withheld _
  · obtain ⟨t, ht, hw⟩ := hw
    rw [ht] at hc
    obtain ⟨u, hu, e⟩ := Option.map_eq_some_iff.1 hc
    obtain ⟨hs, hstarted⟩ := Prod.mk.inj e
    refine ⟨u, hu, ?_⟩
    rw [Task.isFinished_iff, hs, hstarted, term_after, ← Task.isFinished_iff]
    -- the times that are left are among those there were
    refine hw.imp_right fun ⟨hp, hn⟩ =>
      ⟨hp, fun L started now hL he hm => hn L started now hL he ?_⟩
    obtain ⟨call', hcall', hsome⟩ := List.mem_filterMap.1 hm
    exact List.mem_filterMap.2 ⟨call', List.mem_cons_of_mem _ hcall', hsome⟩

/-! ## Runs -/

theorem finished_run (h : c.store.tasks.Proper) (hf : c.Finished i) (calls : List Call) :
    (c.run calls).Finished i := by
  induction calls generalizing c with
  | nil => exact hf
  | cons call rest ih => exact ih (proper_after h call) (finished_after h hf call)

theorem finished_of_recorded (h : c.store.tasks.Proper) {calls : List Call}
    (hi : i ∈ c.recorded calls) : (c.run calls).Finished i := by
  induction calls generalizing c with
  | nil => cases hi
  | cons call rest ih =>
    rw [recorded, List.mem_append, Option.mem_toList] at hi
    rcases hi with hi | hi
    · -- the report finishes its task, and the rest of the run leaves it so
      cases call with
      | report j r now =>
        obtain ⟨t, ht, rfl⟩ := Option.map_eq_some_iff.1 hi
        have hf : (c.after (.report j r now)).Finished j :=
          isFinished_report h.sound.indexed ht r now
        exact finished_run (proper_after h _) hf rest
      | _ => cases hi
    · exact ih (proper_after h call) hi

theorem ne_of_mem_handedOut (h : c.store.tasks.Proper) {calls : List Call}
    (hw : c.Withheld i (calls.filterMap Call.sweep?)) : ∀ t ∈ c.handedOut calls, t.id ≠ i := by
  induction calls generalizing c with
  | nil => exact fun t ht => by cases ht
  | cons call rest ih =>
    obtain ⟨hw', hne⟩ := withheld_after h hw
    intro t ht
    rw [handedOut, List.mem_append, Option.mem_toList] at ht
    rcases ht with ht | ht
    · exact hne t ht
    · exact ih (proper_after h call) hw' t ht

theorem get?_of_handsOut (h : c.store.tasks.Proper) {call : Call} {t : Task}
    (ht : c.handsOut call = some t) :
    ∃ asked started, call = .nextTask asked started ∧ t.startedAt = some started ∧
      t.status = .processing ∧
      (c.after call).store.tasks.get? t.id = some t := by
  cases call with
  | nextTask asked started =>
    refine ⟨asked, started, rfl, ?_⟩
    simp only [handsOut, after] at ht ⊢
    rcases nextTask_eq h.sound asked started rfl with ⟨e, -⟩ | ⟨u, -, -, e⟩
    · rw [e] at ht
      cases ht
    · rw [e] at ht ⊢
      cases ht
      exact ⟨rfl, rfl, TaskTable.get?_put_self ..⟩
  | _ => cases ht

theorem nodup_handedOut (h : c.store.tasks.Proper) (hl : c.term = none) (calls : List Call) :
    ((c.handedOut calls).map Task.id).Nodup := by
  induction calls generalizing c with
  | nil => exact List.nodup_nil
  | cons call rest ih =>
    have hrest := ih (proper_after h call) (by rw [term_after, hl])
    rw [handedOut, List.map_append]
    cases ht : c.handsOut call with
    | none => exact hrest
    | some t =>
      obtain ⟨asked, started, -, -, hp, hget⟩ := get?_of_handsOut h ht
      have hw : (c.after call).Withheld t.id (rest.filterMap Call.sweep?) := by
        refine ⟨t, hget, .inr ⟨hp, fun L s now hL => ?_⟩⟩
        rw [term_after, hl] at hL
        cases hL
      refine List.nodup_cons.2 ⟨fun hm => ?_, hrest⟩
      obtain ⟨u, hu, hid⟩ := List.mem_map.1 hm
      exact ne_of_mem_handedOut (proper_after h call) hw u hu hid

theorem runsOut_of_handedOut (h : c.store.tasks.Proper) {call : Call} {t : Task}
    (ht : c.handsOut call = some t) {calls : List Call} {u : Task}
    (hu : u ∈ (c.after call).handedOut calls) (hid : u.id = t.id) :
    ∃ L started now, c.term = some L ∧ t.startedAt = some started ∧
      now ∈ calls.filterMap Call.sweep? ∧
      TaskTable.RunsOut L started now := by
  obtain ⟨asked, started, -, hs, hp, hget⟩ := get?_of_handsOut h ht
  by_contra hn
  refine ne_of_mem_handedOut (i := t.id) (proper_after h call) ⟨t, hget, .inr ⟨hp, ?_⟩⟩ u hu hid
  intro L s now hL hs' hm hout
  rw [term_after] at hL
  exact hn ⟨L, s, now, hL, hs', hm, hout⟩

end

/--
Without a lease every task is handed out once at most. With a lease, a task that is handed out again
has run out of its lease by a time at which overdue tasks were taken back since, and no report for
it has been recorded. Once one has, the task stays finished and is never handed out.
-/
theorem handedOut_once (times : OperationTimes) (lease : Option Duration) :
    (lease = none →
      ∀ calls : List Call, (((initial times lease).handedOut calls).map Task.id).Nodup) ∧
    (∀ (before between : List Call) (asked started asked' started' : Instant) (t u : Task),
      ((initial times lease).run before).handsOut (.nextTask asked started) = some t →
      ((initial times lease).run (before ++ Call.nextTask asked started :: between)).handsOut
        (.nextTask asked' started') = some u → u.id = t.id →
      t.startedAt = some started ∧
      (∃ L now, lease = some L ∧
        now ∈ (between ++ [Call.nextTask asked' started']).filterMap Call.sweep? ∧
        TaskTable.RunsOut L started now) ∧
      t.id ∉ (initial times lease).recorded (before ++ Call.nextTask asked started :: between)) ∧
    ∀ (before rest : List Call) (i : TaskId), i ∈ (initial times lease).recorded before →
      (∀ t ∈ ((initial times lease).run before).handedOut rest, t.id ≠ i) ∧
      ∃ t, ((initial times lease).run (before ++ rest)).store.tasks.get? i = some t ∧
        t.status ≠ .pending ∧ t.status ≠ .processing := by
  have hproper : ∀ calls, ((initial times lease).run calls).store.tasks.Proper := proper_run .empty
  refine ⟨fun hl => nodup_handedOut .empty hl, ?_, fun before rest i hi => ?_⟩
  · intro before between asked started asked' started' t u ht hu hid
    have hout : u ∈ (((initial times lease).run before).after (.nextTask asked started)).handedOut
        (between ++ [.nextTask asked' started']) := by
      rw [run_append, run_cons] at hu
      rw [handedOut_snoc, hu]
      exact List.mem_append_right _ (List.mem_singleton_self u)
    obtain ⟨L, s, now, hL, hs, hm, hrun⟩ := runsOut_of_handedOut (hproper before) ht hout hid
    obtain ⟨_, _, hcall, hs', -⟩ := get?_of_handsOut (hproper before) ht
    cases hcall
    cases hs.symm.trans hs'
    rw [term_run] at hL
    refine ⟨hs, ⟨L, now, hL, hm, hrun⟩, fun hrec => ?_⟩
    -- a recorded report would have kept the task from the second worker
    have hf := finished_of_recorded .empty hrec
    exact ((hf.withheld _).after (hproper _)).2 u hu hid
  · have hf := finished_of_recorded .empty hi
    refine ⟨ne_of_mem_handedOut (hproper before) (hf.withheld _), ?_⟩
    obtain ⟨t, ht, hfin⟩ := finished_run (hproper before) hf rest
    rw [← run_append] at ht
    refine ⟨t, ht, Task.not_pending_of_isFinished hfin, ?_⟩
    rcases Task.isFinished_iff.1 hfin with e | e <;> simp [e]

/--
A sum goes to a second worker as its lease runs out, is reported twice, and stays where it is after
that.
-/
theorem handedOut_once_of_late_worker :
    let second : Call := .nextTask (Evaluation.clock 12) (Evaluation.clock 13)
    let calls : List Call :=
      [.submitText "1+2" 0, .nextTask (Evaluation.clock 1) (Evaluation.clock 2),
      .requeue (Evaluation.clock 11)]
    let reports : List Call := [.report (Id.ofNat 3) (.completed 3.0) (Evaluation.clock 14),
      .report (Id.ofNat 3) (.failed "late") (Evaluation.clock 15)]
    (((initial .instant none).handedOut (calls ++ second :: reports)).map Task.id).Nodup ∧
    TaskTable.RunsOut (.ofMillis 10) (Evaluation.clock 2) (Evaluation.clock 12) ∧
    ∀ t ∈ ((initial .instant (some (.ofMillis 10))).run (calls ++ second :: reports)).handedOut
      [second], t.id ≠ Id.ofNat 3 := by
  intro second calls reports
  obtain ⟨honce, -, -⟩ := handedOut_once .instant none
  obtain ⟨-, hagain, hfinal⟩ := handedOut_once .instant (some (.ofMillis 10))
  have hout : (((initial .instant (some (.ofMillis 10))).run [.submitText "1+2" 0]).handsOut
      (.nextTask (Evaluation.clock 1) (Evaluation.clock 2))).map Task.id = some (Id.ofNat 3) := by
      decide
  have hout' : (((initial .instant (some (.ofMillis 10))).run calls).handsOut second).map Task.id =
      some (Id.ofNat 3) := by decide
  obtain ⟨t, ht, hid⟩ := Option.map_eq_some_iff.1 hout
  obtain ⟨u, hu, hid'⟩ := Option.map_eq_some_iff.1 hout'
  obtain ⟨-, ⟨L, now, hL, hm, hrun⟩, -⟩ :=
    hagain [.submitText "1+2" 0] [.requeue (Evaluation.clock 11)]
    _ _ _ _ t u ht hu (hid'.trans hid.symm)
  cases hL
  -- the first return of tasks came too early
  have hnow : now = Evaluation.clock 11 ∨ now = Evaluation.clock 12 := by
    simpa [Call.sweep?] using hm
  refine ⟨honce rfl _, ?_, (hfinal _ [second] (Id.ofNat 3) (by decide)).1⟩
  rcases hnow with rfl | rfl
  · obtain ⟨deadline, hd, hlate⟩ := hrun
    have hdeadline : (Evaluation.clock 2).later? (.ofMillis 10) = some (Evaluation.clock 12) := by
      decide
    cases hd.symm.trans hdeadline
    exact absurd hlate (by decide)
  · exact hrun

end Coordinator

end Reckoner
