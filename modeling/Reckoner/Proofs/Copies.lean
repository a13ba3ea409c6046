import Reckoner.Proofs.Coordinator.Tables
import Reckoner.Proofs.Task.Supply
import Mathlib.Data.List.Induction

/-!
# Clients with copies of tasks

Clients make tasks, take copies of stored ones, change the copies and write them to the store, each
at its own time, and the latest writer wins. Operands stay known all the same: a slot lacks a result
of the store only where the version of its task that was written last had lacked it (`Overlooked`).
-/

namespace Reckoner

/-! ## Calls of clients -/

/-- A store and the copies of tasks that its clients have, oldest first. -/
structure Desk where
  store : Store
  copies : List Task

namespace Desk

inductive Edit where
  | start (now : Instant)
  | complete (result : Float) (now : Instant)
  | fail (message : String) (now : Instant)
  | requeue
deriving DecidableEq, Repr

def Edit.apply (t : Task) : Edit → Task
  | start now => t.start now
  | complete result now => t.complete result now
  | fail message now => t.fail message now
  | requeue => t.requeue

/-- Copies go by their places; a call for a copy that is not there does nothing. -/
inductive Call where
  | literal (owner : ExpressionId) (value : Float) (stamp : Stamp)
  | composite (owner : ExpressionId) (operation : Operation) (left right : Nat) (duration : UInt64)
    (stamp : Stamp)
  | get (id : TaskId)
  | edit (copy : Nat) (edit : Edit)
  | save (batch : List Nat)
  | update (copy : Nat)
  | nextTask (lease : Option Duration) (asked started : Instant)
  | requeueOverdue (lease : Option Duration) (now : Instant)
deriving DecidableEq, Repr

variable (d : Desk)

def scheduler (lease : Option Duration) : Coordinator := ⟨.instant, lease, d.store⟩

def made : Call → Option Task
  | .literal owner value stamp => some (.literal owner value stamp)
  | .composite owner operation left right duration stamp => do
    return .composite owner operation (← d.copies[left]?) (← d.copies[right]?) duration stamp
  | .get id => (d.store.task id).toOption
  | .edit copy edit => d.copies[copy]?.map edit.apply
  | .nextTask lease asked started => ((d.scheduler lease).nextTask asked started).1
  | .save _ | .update _ | .requeueOverdue _ _ => none

def offered : Call → List Task
  | .save batch => batch.filterMap (d.copies[·]?)
  | .update copy => d.copies[copy]?.toList
  | _ => []

def answer : Call → Except Fault Store
  | .save batch => d.store.saveTasks (d.offered (.save batch))
  | .update copy =>
    match d.copies[copy]? with
    | none => .ok d.store
    | some t => d.store.updateTask t
  | .nextTask lease asked started => .ok ((d.scheduler lease).nextTask asked started).2.store
  | .requeueOverdue lease now => .ok ((d.scheduler lease).requeueOverdue now).2.store
  | .literal .. | .composite .. | .get _ | .edit _ _ => .ok d.store

def written (call : Call) : List Task :=
  match d.answer call with
  | .error _ => []
  | .ok _ => d.offered call

def after (call : Call) : Desk :=
  ⟨(d.answer call).toOption.getD d.store, d.copies ++ (d.made call).toList⟩

def run (calls : List Call) : Desk := calls.foldl after ⟨.empty, []⟩

theorem store_after_of_error {d : Desk} {call : Call} {fault : Fault}
    (h : d.answer call = .error fault) : (d.after call).store = d.store := by
  simp [after, h, Except.toOption]

theorem store_after_of_ok {d : Desk} {call : Call} {s : Store} (h : d.answer call = .ok s) :
    (d.after call).store = s := by
  simp [after, h, Except.toOption]

theorem run_append_singleton (calls : List Call) (call : Call) :
    run (calls ++ [call]) = (run calls).after call := by
  simp [run]

/--
The version of task `i` that was written last lacked the result of task `s`, which the store held,
and no version of `s` with a result has been written since.
-/
inductive Overlooked : List Call → TaskId → TaskId → Prop where
  | written {calls call t s} (h : t ∈ (run calls).written call)
    (lags : (run calls).store.tasks.Lags t s) :
      Overlooked (calls ++ [call]) t.id s
  | kept {calls call i s} (h : Overlooked calls i s)
      (others : ∀ t ∈ (run calls).written call, t.id ≠ i ∧ (t.id = s → t.completedResult = none)) :
      Overlooked (calls ++ [call]) i s

/-! ## Runs -/

structure Sound (d : Desk) : Prop where
  indexed : d.store.tasks.Indexed
  regular : d.store.tasks.Regular
  copies : ∀ t ∈ d.copies, t.Regular

namespace Sound

theorem empty : Sound ⟨.empty, []⟩ := ⟨.empty, fun i t h => by simp [Store.empty] at h, by simp⟩

variable {d : Desk} (h : d.Sound)
include h

theorem copy {n : Nat} {t : Task} (ht : d.copies[n]? = some t) : t.Regular :=
  h.copies t (List.mem_of_getElem? ht)

theorem offered {call : Call} {t : Task} (ht : t ∈ d.offered call) : t.Regular := by
  cases call with
  | save batch =>
    obtain ⟨n, -, hn⟩ := List.mem_filterMap.1 ht
    exact h.copy hn
  | update n => exact h.copy (Option.mem_toList.1 ht)
  | _ => cases ht

theorem requeueOverdue (lease : Option Duration) (now : Instant) :
    d.store.tasks.Takes [] ((d.scheduler lease).requeueOverdue now).2.store.tasks :=
  .foldl_requeue h.indexed h.regular _

theorem nextTask (lease : Option Duration) (asked started : Instant) :
    d.store.tasks.Takes [] ((d.scheduler lease).nextTask asked started).2.store.tasks ∧
      ∀ t, ((d.scheduler lease).nextTask asked started).1 = some t → t.Regular := by
  have hq := h.requeueOverdue lease asked
  unfold Coordinator.nextTask
  dsimp only
  split
  · exact ⟨hq, by simp⟩
  · rename_i t table hd
    obtain ⟨u, hu, he, rfl, rfl⟩ := TaskTable.dispatch?_eq_some hq.indexed hd
    have hp := (TaskTable.isEligible_iff.1 he).1
    refine ⟨hq.trans (.start hq.indexed hq.regular hu hp started), fun t ht => ?_⟩
    cases ht
    exact (hq.regular hu).start started

theorem made {call : Call} {t : Task} (ht : d.made call = some t) : t.Regular := by
  cases call with
  | literal owner value stamp =>
    cases ht
    exact .literal owner value stamp
  | composite owner operation left right duration stamp =>
    simp only [Desk.made, Option.bind_eq_bind, Option.bind_eq_some_iff] at ht
    obtain ⟨l, -, r, -, ht⟩ := ht
    cases ht
    exact .composite owner operation l r duration stamp
  | get id =>
    cases hg : d.store.tasks.get? id with
    | none => simp [Desk.made, Store.task, hg, Except.toOption] at ht
    | some u =>
      simp only [Desk.made, Store.task, hg, Except.toOption] at ht
      cases ht
      exact h.regular hg
  | edit n edit =>
    obtain ⟨u, hu, rfl⟩ := Option.map_eq_some_iff.1 ht
    have hu := h.copy hu
    cases edit with
    | start now => exact hu.start now
    | complete r now => exact hu.complete r now
    | fail m now => exact hu.fail m now
    | requeue => exact hu.requeue
  | nextTask lease asked started => exact (h.nextTask lease asked started).2 t ht
  | save | update | requeueOverdue => cases ht

theorem takes {call : Call} {s : Store} (hs : d.answer call = .ok s) :
    ∃ mid, d.store.tasks.Takes (d.offered call) mid ∧
      s.tasks = (d.offered call).foldl TaskTable.settle mid := by
  cases call with
  | save batch =>
    exact TaskTable.Takes.exists_of_insertAll h.indexed h.regular (fun t => h.offered)
      (Store.insertAll_of_saveTasks hs)
  | update n =>
    simp only [answer] at hs
    cases hn : d.copies[n]? with
    | none =>
      rw [hn] at hs
      cases hs
      have hoffered : d.offered (.update n) = [] := by simp [Desk.offered, hn]
      rw [hoffered]
      exact ⟨_, .refl h.indexed h.regular, rfl⟩
    | some t =>
      rw [hn] at hs
      have hoffered : d.offered (.update n) = [t] := by simp [Desk.offered, hn]
      rw [hoffered]
      exact TaskTable.Takes.exists_of_replace h.indexed h.regular (h.copy hn)
        (Store.replace_of_updateTask hs)
  | nextTask lease asked started =>
    cases hs
    exact ⟨_, (h.nextTask lease asked started).1, rfl⟩
  | requeueOverdue lease now =>
    cases hs
    exact ⟨_, h.requeueOverdue lease now, rfl⟩
  | literal | composite | get | edit =>
    cases hs
    exact ⟨_, .refl h.indexed h.regular, rfl⟩

theorem after (call : Call) : (d.after call).Sound := by
  have hcopies : ∀ t ∈ (d.after call).copies, t.Regular := by
    intro t ht
    rcases List.mem_append.1 ht with ht | ht
    · exact h.copies t ht
    · exact h.made (Option.mem_toList.1 ht)
  cases hs : d.answer call with
  | error fault =>
    have hstore := store_after_of_error hs
    exact ⟨hstore ▸ h.indexed, hstore ▸ h.regular, hcopies⟩
  | ok s =>
    obtain ⟨mid, hmid, htasks⟩ := h.takes hs
    refine ⟨?_, ?_, hcopies⟩
    · rw [store_after_of_ok hs, htasks]
      exact hmid.indexed.foldl_settle _
    · rw [store_after_of_ok hs, htasks]
      exact hmid.regular.foldl_settle _

/--
A slot that lags after a call lagged in the version that the call has written, or before the call.
-/
theorem lags_after {call : Call} {i s : TaskId} {t : Task}
    (ht : (d.after call).store.tasks.get? i = some t) (hl : (d.after call).store.tasks.Lags t s) :
    (∃ u ∈ d.written call, u.id = i ∧ d.store.tasks.Lags u s) ∨
    (∀ u ∈ d.written call, u.id ≠ i ∧ (u.id = s → u.completedResult = none)) ∧
      ∃ u, d.store.tasks.get? i = some u ∧ d.store.tasks.Lags u s := by
  cases hs : d.answer call with
  | error fault =>
    rw [store_after_of_error hs] at ht hl
    exact .inr ⟨by simp [written, hs], t, ht, hl⟩
  | ok s' =>
    obtain ⟨mid, hmid, htasks⟩ := h.takes hs
    rw [store_after_of_ok hs, htasks] at ht hl
    simpa only [written, hs] using hmid.lags ht hl

end Sound

theorem sound_run (calls : List Call) : (run calls).Sound := by
  induction calls using List.reverseRecOn with
  | nil => exact .empty
  | append_singleton calls call ih =>
    rw [run_append_singleton]
    exact ih.after call

theorem overlooked_of_lags (calls : List Call) {i s : TaskId} {t : Task}
    (ht : (run calls).store.tasks.get? i = some t) (hl : (run calls).store.tasks.Lags t s) :
    Overlooked calls i s := by
  induction calls using List.reverseRecOn generalizing t with
  | nil => simp [run, Store.empty] at ht
  | append_singleton calls call ih =>
    rw [run_append_singleton] at ht hl
    -- the slot came behind with this call, or the call has done nothing about it
    rcases (sound_run calls).lags_after ht hl with ⟨u, hu, rfl, hlu⟩ | ⟨hothers, u, hu, hlu⟩
    · exact .written hu hlu
    · exact .kept (ih hu hlu) hothers

/-! ## Tasks with completed dependencies -/

theorem nodup_written {d : Desk} {call : Call} : ((d.written call).map Task.id).Nodup := by
  unfold written
  split
  · exact List.nodup_nil
  · rename_i s hs
    cases call with
    | save batch => exact (TaskTable.of_insertAll_eq_ok (Store.insertAll_of_saveTasks hs)).1
    | update n => cases hn : d.copies[n]? <;> simp [offered, hn]
    | _ => exact List.nodup_nil

/-- A version that is up to date when it is written has nothing overlooked. -/
theorem not_overlooked_of_written {calls : List Call} {call : Call} {t : Task}
    (ht : t ∈ (run calls).written call) {s : TaskId} (hl : ¬ (run calls).store.tasks.Lags t s) :
    ¬ Overlooked (calls ++ [call]) t.id s := by
  intro h
  generalize hc : calls ++ [call] = calls', hi : t.id = i at h
  cases h with
  | written hu lags =>
    obtain ⟨rfl, hcall⟩ := List.append_inj' hc rfl
    cases hcall
    rw [List.inj_on_of_nodup_map nodup_written ht hu hi] at hl
    exact hl lags
  | kept _ others =>
    -- the call has written the version itself
    obtain ⟨rfl, hcall⟩ := List.append_inj' hc rfl
    cases hcall
    exact (others t ht).1 hi

theorem Sound.exists_get?_of_written {d : Desk} (h : d.Sound) {call : Call} {t : Task}
    (ht : t ∈ d.written call) :
    ∃ u, (d.after call).store.tasks.get? t.id = some u ∧ u.dependencies = t.dependencies := by
  cases hs : d.answer call with
  | error fault => simp [written, hs] at ht
  | ok s =>
    simp only [written, hs] at ht
    obtain ⟨mid, hmid, htasks⟩ := h.takes hs
    have hd := TaskTable.map_get?_foldl_settle (f := Task.dependencies) (fun _ _ _ => rfl) t.id
        (d.offered call) mid
    rw [hmid.mem t ht, Option.map_some] at hd
    rw [store_after_of_ok hs, htasks]
    exact Option.map_eq_some_iff.1 hd

/--
A task whose dependencies are stored and completed has their results as its operands, and is
eligible if it is pending, unless a result was overlooked. A version that has every stored result
for its slots when it is saved or updated has them afterwards too, whichever batches they came with.
And an update changes no other task, except that it writes its result into the slots for it.
-/
theorem supplied_of_not_overlooked (calls : List Call) :
    (∀ i t, (run calls).store.tasks.get? i = some t →
      (∀ d ∈ t.dependencies, ∃ u, (run calls).store.tasks.get? d = some u ∧ u.status = .completed) →
      (∀ d ∈ t.dependencies, ¬ Overlooked calls i d) →
        (run calls).store.tasks.Supplied t ∧
        (t.status = .pending → (run calls).store.tasks.isEligible t = true)) ∧
    (∀ call, ∀ t ∈ (run calls).written call,
      (∀ d ∈ t.dependencies, ¬ (run calls).store.tasks.Lags t d) →
      ∃ u, (run (calls ++ [call])).store.tasks.get? t.id = some u ∧
        u.dependencies = t.dependencies ∧
        ∀ d ∈ u.dependencies, ¬ (run (calls ++ [call])).store.tasks.Lags u d) ∧
    ∀ (n : Nat) u s, (run calls).copies[n]? = some u → (run calls).store.updateTask u = .ok s →
      ∀ i t, (run calls).store.tasks.get? i = some t → u.id ≠ i →
        ∃ t', s.tasks.get? i = some t' ∧
          (t' = t ∨ ∃ r, u.completedResult = some r ∧ t' = t.resolve u.id r) := by
  have h := sound_run calls
  refine ⟨fun i t ht hd ho => ?_, fun call t ht hl => ?_, fun n u s hn hs i t ht hne => ?_⟩
  · have hs := h.regular.supplied (h.regular ht) hd fun d hm hl =>
      ho d hm (overlooked_of_lags calls ht hl)
    refine ⟨hs, fun hp => TaskTable.isEligible_iff.2 ⟨hp, hd, ?_⟩⟩
    obtain ⟨a, b, hv, -⟩ := hs
    exact ⟨a, b, hv⟩
  · obtain ⟨u, hu, hd⟩ := h.exists_get?_of_written ht
    rw [← run_append_singleton] at hu
    refine ⟨u, hu, hd, fun d hm hlu => ?_⟩
    exact not_overlooked_of_written ht (hl d (hd ▸ hm))
      (overlooked_of_lags (calls ++ [call]) hu hlu)
  · exact TaskTable.get?_of_replace_eq_ok (Store.replace_of_updateTask hs) ht hne

def opening : List Call :=
  [.literal (Id.ofNat 0) 1.0 (Evaluation.stamp 1), .literal (Id.ofNat 0) 2.0 (Evaluation.stamp 2),
    .composite (Id.ofNat 0) .addition 0 1 0 (Evaluation.stamp 3), .save [0, 1, 2],
    .composite (Id.ofNat 0) .multiplication 2 0 0 (Evaluation.stamp 4)]

/--
The sum is completed from the copy that was handed out, and a product made of that copy is saved
later.
-/
theorem supplied_of_completed_copy :
    let calls := opening ++ [.nextTask none (Evaluation.clock 5) (Evaluation.clock 6),
      .edit 4 (.complete 3.0 (Evaluation.clock 7)), .update 5,
      .composite (Id.ofNat 0) .multiplication 5 0 0 (Evaluation.stamp 8)]
    ∃ t, (run (calls ++ [.save [6]])).store.tasks.get? (Id.ofNat 8) = some t ∧
      t.operandValues = some (3.0, 1.0) ∧
      (run (calls ++ [.save [6]])).store.tasks.isEligible t = true := by
  intro calls
  let t :=
    Task.composite (Id.ofNat 0) .multiplication (.literal (Id.ofNat 0) 3.0 (Evaluation.stamp 3))
    (.literal (Id.ofNat 0) 1.0 (Evaluation.stamp 1)) 0 (Evaluation.stamp 8)
  have ht : (run (calls ++ [.save [6]])).store.tasks.get? (Id.ofNat 8) = some t := by decide
  have hd : ∀ d ∈ t.dependencies,
      ((run (calls ++ [.save [6]])).store.tasks.get? d).map Task.status = some .completed := by
    decide
  have hw : t ∈ (run calls).written (.save [6]) := by decide
  have hv : ∀ d ∈ t.dependencies,
      (t.left.source? = some d → t.left.value? = (run calls).store.tasks.resultOf d) ∧
      (t.right.source? = some d → t.right.value? = (run calls).store.tasks.resultOf d) := by
    decide
  obtain ⟨h, -, -⟩ := supplied_of_not_overlooked (calls ++ [.save [6]])
  obtain ⟨-, he⟩ := h _ t ht (fun d hm => Option.map_eq_some_iff.1 (hd d hm))
    (fun d hm => not_overlooked_of_written hw (TaskTable.not_lags (hv d hm).1 (hv d hm).2))
  exact ⟨t, ht, rfl, he rfl⟩

/--
Without the conditions both ways to miss a result are open. The product that was made before the sum
was completed never has its result when it is saved after; and saved before, it loses the result to
an update from a copy without it.
-/
theorem starved_of_early_copy :
    let late := run (opening ++ [.get (Id.ofNat 3), .edit 4 (.complete 3.0 (Evaluation.clock 5)),
      .update 5, .save [3]])
    let before := run (opening ++ [.save [3], .get (Id.ofNat 4), .get (Id.ofNat 3),
      .edit 5 (.complete 3.0 (Evaluation.clock 5)), .update 6, .edit 4 .requeue])
    let look := fun (d : Desk) => (d.store.tasks.get? (Id.ofNat 4)).map fun t => (t.status,
      t.dependencies.map fun i => (d.store.tasks.get? i).map Task.status, t.operandValues,
      d.store.tasks.isEligible t)
    look late = some (.pending, [some .completed, some .completed], none, false) ∧
    look before = some (.pending, [some .completed, some .completed], some (3.0, 1.0), true) ∧
    look (before.after (.update 7)) = some (.pending, [some .completed, some .completed], none,
      false) := by
  intro late before look
  refine ⟨?_, ?_, ?_⟩ <;> decide

end Desk

end Reckoner
