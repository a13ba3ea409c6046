import Reckoner.Proofs.Coordinator.Calls
import Reckoner.Proofs.Coordinator.Run
import Mathlib.Data.List.Induction

/-!
# Sound runs

A run that draws no identifier twice keeps the store sound: what is stored under an identifier has
been drawn, so every submission finds its own identifiers free.
-/

namespace Reckoner

structure Call.Fresh (call : Call) (s : Store) : Prop where
  nodup : call.draws.Nodup
  expressions : ∀ u ∈ call.draws, s.expressions[(⟨u⟩ : ExpressionId)]? = none
  tasks : ∀ u ∈ call.draws, s.tasks.get? ⟨u⟩ = none

theorem Call.Fresh.of_draws_eq_nil {call : Call} (h : call.draws = []) (s : Store) :
    call.Fresh s where
  nodup := h ▸ .nil
  expressions := by simp [h]
  tasks := by simp [h]

namespace Formula

variable {times : OperationTimes} {owner : ExpressionId} {stamps : Nat → Stamp}

theorem ids_plan (f : Formula) : (f.plan times owner stamps).map Task.id =
    (List.range f.size).map fun k => ⟨(stamps k).uuid⟩ := by
  rw [plan, Plan.ids_tasks, List.range_eq_range']

end Formula

namespace Call

variable {text : String} {stamp : Stamp} {stamps : Nat → Stamp} {now : Instant}

theorem stamp_mem_draws : stamp.uuid ∈ (submit text stamp stamps now).draws := by
  simp only [draws]
  split <;> simp

variable {f : Formula} (hp : Formula.parse text = .ok f) (times : OperationTimes)
  (owner : ExpressionId)
include hp

theorem draws_eq : (submit text stamp stamps now).draws =
    stamp.uuid :: ((f.plan times owner stamps).map Task.id).map Id.uuid := by
  rw [Formula.ids_plan, List.map_map]
  simp only [draws, hp]
  rfl

theorem Fresh.plan {s : Store} (h : (submit text stamp stamps now).Fresh s) :
    ((f.plan times owner stamps).map Task.id).Nodup ∧
      ∀ t ∈ f.plan times owner stamps, s.tasks.get? t.id = none := by
  obtain ⟨hn, -, ht⟩ := h
  rw [draws_eq hp times owner] at hn ht
  refine ⟨(List.nodup_cons.1 hn).2.of_map _, fun t hm => ?_⟩
  exact ht t.id.uuid (List.mem_cons_of_mem _ (List.mem_map_of_mem (List.mem_map_of_mem hm)))

end Call

structure Store.DrawnFrom (s : Store) (drawn : List Uuid) : Prop where
  expressions : ∀ ⦃i : ExpressionId⦄ ⦃e⦄, s.expressions[i]? = some e → i.uuid ∈ drawn
  tasks : ∀ ⦃i t⦄, s.tasks.get? i = some t → i.uuid ∈ drawn

theorem Store.DrawnFrom.fresh {s : Store} {drawn : List Uuid} (h : s.DrawnFrom drawn) {call : Call}
    (hn : (drawn ++ call.draws).Nodup) : call.Fresh s := by
  obtain ⟨-, hc, hd⟩ := List.nodup_append.1 hn
  refine ⟨hc, fun u hu => ?_, fun u hu => ?_⟩
  · rw [Option.eq_none_iff_forall_ne_some]
    exact fun e he => hd _ (h.expressions he) u hu rfl
  · rw [Option.eq_none_iff_forall_ne_some]
    exact fun t ht => hd _ (h.tasks ht) u hu rfl

namespace Coordinator

variable {c : Coordinator}

@[simp] theorem times_after (c : Coordinator) (call : Call) : (c.after call).times = c.times := by
  cases call with
  | submit text stamp stamps now => rfl
  | nextTask asked started =>
    simp only [after, nextTask]
    split <;> rfl
  | requeue now => rfl
  | report id r now =>
    simp only [after, report]
    repeat' split
    all_goals rfl

/-! ## One call -/

theorem sound_submit (h : c.store.Sound c.times) {text : String} {stamp : Stamp}
    {stamps : Nat → Stamp} {now : Instant}
    (hf : (Call.submit text stamp stamps now).Fresh c.store) :
    (c.submit text stamp stamps now).2.store.Sound c.times := by
  have hnew := hf.expressions _ Call.stamp_mem_draws
  cases hp : Formula.parse text with
  | error cause =>
    obtain ⟨s', hs', htasks, hexpr⟩ := submit_eq_of_error c hp stamp stamps now
    rw [hs']
    refine h.update (e := (Expression.create text stamp).fail cause.message now)
      (htasks ▸ h.table) hexpr (.fail _ _ _) (fun i t ht => .inr ⟨t, htasks ▸ ht, rfl⟩)
      (fun o _ => by rw [Store.tasksOf, Store.tasksOf, htasks])
      (.inl ⟨⟨cause, hp, rfl⟩, rfl, ?_, rfl⟩)
    have hids : c.store.tasks.idsOf ⟨stamp.uuid⟩ = [] :=
      Store.idsOf_eq_nil h.table.indexed h.owner hnew
    change s'.tasks.ofOwner ⟨stamp.uuid⟩ = []
    rw [htasks, TaskTable.ofOwner_eq, hids, List.filterMap_nil]
  | ok f =>
    obtain ⟨hn, hold⟩ := hf.plan hp c.times ⟨stamp.uuid⟩
    obtain ⟨o, s', hs', htasks, hholds, ho, hexpr⟩ := submit_eq_of_ok h hp now hnew hn hold
    rw [hs']
    generalize hnewest : filed text stamp ((f.plan c.times ⟨stamp.uuid⟩ stamps).map Task.id) now =
      e at hexpr
    have hid : (e.recomputed o now).id = ⟨stamp.uuid⟩ := by
      rw [(e.recomputed_fields o now).1, ← hnewest]; rfl
    have hc : e.Coherent := by rw [← hnewest]; constructor <;> simp [filed, Expression.create]
    have hsound : s'.tasks.Sound := htasks ▸ h.table.arrived_plan hn hold
    refine h.update hsound (by rw [hid]; exact hexpr) (hc.recomputed o now) (fun i t ht => ?_)
      (fun o' hne => ?_) (.inr ⟨f, stamps, ?_, ?_, ?_, ?_⟩)
    · rw [htasks] at ht
      obtain ⟨u, hu, hs⟩ := TaskTable.exists_get?_of_arrived hn ht
      have howner := Task.owner_eq_of_standing_eq hs
      rcases hu with ⟨hu, -⟩ | hu
      · exact .inl (by rw [howner, Plan.owner_of_mem hu, hid])
      · exact .inr ⟨u, hu, howner.symm⟩
    · rw [hid] at hne
      rw [Store.tasksOf, htasks]
      obtain ⟨hids, hget⟩ := TaskTable.standing_arrived_of_ne h.table.indexed hold (o := o')
        fun t ht => Plan.owner_of_mem ht ▸ hne.symm
      exact TaskTable.map_ofOwner_congr hids hget
    · rw [(e.recomputed_fields o now).2.1, ← hnewest]
      exact hp
    · rw [hid]
      exact hholds
    · rw [(e.recomputed_fields o now).2.2, hid, ← hnewest]
      rfl
    · rw [hid]
      exact e.follows_recomputed hholds hsound ho now

/-- A submission files one expression and leaves the others alone. -/
theorem expressions_submit (h : c.store.Sound c.times) {text : String} {stamp : Stamp}
    {stamps : Nat → Stamp} {now : Instant}
    (hf : (Call.submit text stamp stamps now).Fresh c.store) :
    ∃ e, e.id = ⟨stamp.uuid⟩ ∧ e.text = text ∧ e.createdAt = stamp.time ∧
      ∀ j : ExpressionId, (c.submit text stamp stamps now).2.store.expressions[j]? =
        if ⟨stamp.uuid⟩ = j then some e else c.store.expressions[j]? := by
  cases hp : Formula.parse text with
  | error cause =>
    obtain ⟨s', hs', -, hexpr⟩ := submit_eq_of_error c hp stamp stamps now
    rw [hs']
    exact ⟨_, rfl, rfl, rfl, hexpr⟩
  | ok f =>
    obtain ⟨hn, hold⟩ := hf.plan hp c.times ⟨stamp.uuid⟩
    obtain ⟨o, s', hs', -, -, -, hexpr⟩ :=
      submit_eq_of_ok h hp now (hf.expressions _ Call.stamp_mem_draws) hn hold
    rw [hs']
    exact ⟨_, (Expression.recomputed_fields _ o now).1, (Expression.recomputed_fields _ o now).2.1,
      Expression.createdAt_recomputed _ o now, hexpr⟩

theorem sound_report (h : c.store.Sound c.times) (i : TaskId) (r : Report) (now : Instant) :
    (c.report i r now).2.store.Sound c.times := by
  cases ht : c.store.tasks.get? i with
  | none =>
    rw [report_eq_of_unknown ht]
    exact h
  | some t =>
    obtain ⟨e, f, stamps, o, s', he, hid, ha, htasks, ho, hs', hexpr⟩ := report_eq h ht r now
    cases h.table.indexed.id_eq ht
    rw [hs']
    have hid' : (e.recomputed o now).id = e.id := (e.recomputed_fields o now).1
    have hsound : s'.tasks.Sound := htasks ▸ TaskTable.Sound.reported ht r now h.table
    have hholds : s'.tasks.Holds c.times e.id stamps f :=
      htasks ▸ ha.holds.reported ht r now h.table.indexed
    refine h.update hsound (by rw [hid']; exact hexpr) ((h.coherent he).recomputed o now)
      (fun i u hu => ?_) (fun o' hne => ?_) (.inr ⟨f, stamps, ?_, by rwa [hid'], ?_, ?_⟩)
    · rw [htasks] at hu
      obtain ⟨v, hv, hb⟩ := TaskTable.exists_get?_of_reported ht r now hu
      exact .inr ⟨v, hv, (Task.fields_of_blueprint hb).2.1.symm⟩
    · rw [hid', hid] at hne
      rw [Store.tasksOf, htasks]
      exact TaskTable.map_ofOwner_congr (c.store.tasks.idsOf_reported t r now o')
        (TaskTable.standing_reported_of_ne ht r now h.table.indexed hne.symm)
    · rw [(e.recomputed_fields o now).2.1]
      exact ha.parse
    · rw [(e.recomputed_fields o now).2.2, hid']
      exact ha.taskIds
    · rw [hid']
      exact e.follows_recomputed hholds hsound ho now

theorem sound_after (h : c.store.Sound c.times) {call : Call} (hf : call.Fresh c.store) :
    (c.after call).store.Sound c.times := by
  cases call with
  | submit text stamp stamps now => exact sound_submit h hf
  | nextTask asked started =>
    obtain ⟨hs, hc⟩ := calm_nextTask h.table asked started
    exact h.calm (expressions_nextTask c asked started) hs hc
  | requeue now =>
    obtain ⟨hs, hc⟩ := calm_requeueOverdue h.table now
    exact h.calm rfl hs hc
  | report id r now => exact sound_report h id r now

theorem drawnFrom_after (h : c.store.Sound c.times) {call : Call} (hf : call.Fresh c.store)
    {drawn : List Uuid} (hd : c.store.DrawnFrom drawn) :
    (c.after call).store.DrawnFrom (drawn ++ call.draws) := by
  cases call with
  | submit text stamp stamps now =>
    refine ⟨fun i e hi => ?_, fun i t ht => ?_⟩
    · obtain ⟨_, -, -, -, hexpr⟩ := expressions_submit h hf
      rw [after, hexpr] at hi
      split at hi
      · rename_i hid
        exact hid ▸ List.mem_append_right _ Call.stamp_mem_draws
      · exact List.mem_append_left _ (hd.expressions hi)
    · rw [after] at ht
      cases hp : Formula.parse text with
      | error cause =>
        obtain ⟨s', hs', htasks, -⟩ := submit_eq_of_error c hp stamp stamps now
        rw [hs', htasks] at ht
        exact List.mem_append_left _ (hd.tasks ht)
      | ok f =>
        obtain ⟨hn, hold⟩ := hf.plan hp c.times ⟨stamp.uuid⟩
        obtain ⟨o, s', hs', htasks, -⟩ :=
          submit_eq_of_ok h hp now (hf.expressions _ Call.stamp_mem_draws) hn hold
        rw [hs', htasks] at ht
        obtain ⟨u, ⟨hu, rfl⟩ | hu, -⟩ := TaskTable.exists_get?_of_arrived hn ht
        · rw [Call.draws_eq hp c.times ⟨stamp.uuid⟩]
          exact List.mem_append_right _
            (List.mem_cons_of_mem _ (List.mem_map_of_mem (List.mem_map_of_mem hu)))
        · exact List.mem_append_left _ (hd.tasks hu)
  | nextTask asked started =>
    obtain ⟨-, hc⟩ := calm_nextTask h.table asked started
    refine ⟨fun i e hi => ?_, fun i t ht => ?_⟩
    · rw [after, expressions_nextTask] at hi
      exact List.mem_append_left _ (hd.expressions hi)
    · obtain ⟨u, hu, -⟩ := hc.exists_get? ht
      exact List.mem_append_left _ (hd.tasks hu)
  | requeue now =>
    obtain ⟨-, hc⟩ := calm_requeueOverdue h.table now
    refine ⟨fun i e hi => List.mem_append_left _ (hd.expressions hi), fun i t ht => ?_⟩
    obtain ⟨u, hu, -⟩ := hc.exists_get? ht
    exact List.mem_append_left _ (hd.tasks hu)
  | report i r now =>
    simp only [Call.draws, List.append_nil, after]
    cases ht : c.store.tasks.get? i with
    | none =>
      rw [report_eq_of_unknown ht]
      exact hd
    | some t =>
      obtain ⟨e, f, stamps, o, s', he, hid, ha, htasks, ho, hs', hexpr⟩ := report_eq h ht r now
      cases h.table.indexed.id_eq ht
      rw [hs']
      refine ⟨fun j e' hj => ?_, fun j u hu => ?_⟩
      · rw [hexpr] at hj
        split at hj
        · rename_i hej
          rw [← hid, hej] at he
          exact hd.expressions he
        · exact hd.expressions hj
      · rw [htasks] at hu
        obtain ⟨v, hv, -⟩ := TaskTable.exists_get?_of_reported ht r now hu
        exact hd.tasks hv

/-! ## Runs -/

section
variable (times : OperationTimes) (lease : Option Duration) {calls : List Call}

@[simp] theorem times_run (c : Coordinator) (calls : List Call) :
    (c.run calls).times = c.times := by
  induction calls generalizing c with
  | nil => rfl
  | cons call rest ih => rw [run_cons, ih, times_after]

theorem sound_and_drawnFrom_run (hd : (calls.flatMap Call.draws).Nodup) :
    ((initial times lease).run calls).store.Sound times ∧
      ((initial times lease).run calls).store.DrawnFrom (calls.flatMap Call.draws) := by
  induction calls using List.reverseRecOn with
  | nil =>
    refine ⟨.empty times, fun i e h => ?_, fun i t h => ?_⟩
    · simp [initial, Store.empty] at h
    · simp [initial, Store.empty] at h
  | append_singleton calls call ih =>
    simp only [List.flatMap_append, List.flatMap_singleton] at hd ⊢
    obtain ⟨hs, hdrawn⟩ := ih hd.of_append_left
    have hf := hdrawn.fresh hd
    have ht : ((initial times lease).run calls).times = times := times_run ..
    have hs' : ((initial times lease).run calls).store.Sound
        ((initial times lease).run calls).times := ht.symm ▸ hs
    have hafter := sound_after hs' hf
    rw [ht] at hafter
    rw [run_snoc]
    exact ⟨hafter, drawnFrom_after hs' hf hdrawn⟩

theorem sound_run (hd : (calls.flatMap Call.draws).Nodup) :
    ((initial times lease).run calls).store.Sound ((initial times lease).run calls).times :=
  (times_run (initial times lease) calls).symm ▸ (sound_and_drawnFrom_run times lease hd).1

theorem fresh_run {call : Call} (hd : ((calls ++ [call]).flatMap Call.draws).Nodup) :
    call.Fresh ((initial times lease).run calls).store := by
  simp only [List.flatMap_append, List.flatMap_singleton] at hd
  exact (sound_and_drawnFrom_run times lease hd.of_append_left).2.fresh hd

/--
What is kept by each fresh call to a sound store, from some point of a run on, is kept by the run.
-/
theorem run_induction (calls : List Call) {P : List Call → Prop} (start : P [])
    (step : ∀ more call c, c = (initial times lease).run (calls ++ more) →
      c.store.Sound c.times → call.Fresh c.store → P more → P (more ++ [call]))
    {more : List Call} (hd : ((calls ++ more).flatMap Call.draws).Nodup) : P more := by
  induction more using List.reverseRecOn with
  | nil => exact start
  | append_singleton more call ih =>
    rw [← List.append_assoc] at hd
    have hd' : ((calls ++ more).flatMap Call.draws).Nodup := by
      rw [List.flatMap_append] at hd
      exact hd.of_append_left
    exact step more call _ rfl (sound_run times lease hd') (fresh_run times lease hd) (ih hd')

end

def Reachable (c : Coordinator) : Prop :=
  ∃ times lease calls, (calls.flatMap Call.draws).Nodup ∧ c = (initial times lease).run calls

theorem Reachable.sound (h : c.Reachable) : c.store.Sound c.times := by
  obtain ⟨times, lease, calls, hd, rfl⟩ := h
  exact sound_run times lease hd

end Coordinator

end Reckoner
