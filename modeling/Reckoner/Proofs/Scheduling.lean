import Reckoner.Proofs.Coordinator.Tables
import Reckoner.Proofs.Instant.Clock
import Reckoner.Proofs.Task.Bookkeeping

/-!
# Scheduling

Whatever tasks the table holds, the oldest eligible one goes out next, and it alone is touched. A
lease brings back exactly the tasks that have run out of it.
-/

namespace Reckoner

open TaskTable (Change)

namespace Coordinator

/--
Once overdue tasks are back in the queue, which without a lease changes nothing, nothing is handed
out if and only if no stored task is eligible. Otherwise it is the eligible task that precedes every
other, by age and identifier, and it is the only one that changes.
-/
theorem nextTask_least (times : OperationTimes) (lease : Option Duration)
    (expressions : Std.TreeMap ExpressionId Expression) (changes : List Change)
    (asked started : Instant) :
    let c : Coordinator := ⟨times, lease, ⟨expressions, .changeAll .empty changes⟩⟩
    let back := (c.requeueOverdue asked).2
    let eligible (t : Task) : Prop :=
      (∃ i, back.store.tasks.get? i = some t) ∧ back.store.tasks.isEligible t = true
    let out := c.nextTask asked started
    (lease = none → back = c) ∧ (out.1 = none ↔ ∀ t, ¬ eligible t) ∧ (out.1 = none → out.2 = back) ∧
    ∀ t, out.1 = some t → ∃ u, eligible u ∧
      (∀ v, eligible v → v ≠ u → (compare u.createdAt v.createdAt).then (compare u.id v.id) = .lt) ∧
      t = { u with status := .processing, startedAt := some started } ∧
      (⟨u.createdAt, u.id⟩ : QueueKey) ∈ back.store.tasks.queue ∧
      out.2 = { back with store := { back.store with tasks := { back.store.tasks with
        tasks := back.store.tasks.tasks.insert u.id t,
        queue := back.store.tasks.queue.erase ⟨u.createdAt, u.id⟩ } } } := by
  intro c back eligible out
  have h : back.store.tasks.Indexed :=
    (TaskTable.tracks_changeAll .empty changes).indexed.foldl_requeue _
  have hnone : back.store.tasks.nextEligible? = none ↔ ∀ t, ¬ eligible t := by
    rw [h.nextEligible?_eq_none]
    simp only [eligible, not_and, forall_exists_index, Bool.not_eq_true]
    exact forall_comm
  have hout : out = _ := nextTask_eq_elim (rfl : _ = back) h started
  refine ⟨fun hl => requeueOverdue_of_no_lease hl asked, ?_⟩
  cases hu : back.store.tasks.nextEligible? with
  | none =>
    rw [hu, Option.elim_none] at hout
    rw [hout]
    exact ⟨iff_of_true rfl (hnone.1 hu), fun _ => rfl, fun t ht => by cases ht⟩
  | some u =>
    obtain ⟨hget, he, hleast⟩ := h.of_nextEligible?_eq_some hu
    have hp := (TaskTable.isEligible_iff.1 he).1
    rw [hu, Option.elim_some] at hout
    rw [hout]
    refine ⟨iff_of_false (by simp) fun hn => hn u ⟨⟨u.id, hget⟩, he⟩, fun hn => (by cases hn),
      fun t ht => ?_⟩
    cases ht
    refine ⟨u, ⟨⟨u.id, hget⟩, he⟩, fun v hv hne => ?_, rfl, h.mem_queue.2 ⟨u, hget, hp, rfl⟩, ?_⟩
    · obtain ⟨⟨i, hi⟩, hev⟩ := hv
      exact hleast i v hi hev hne
    · rw [TaskTable.put_start hp]
      rfl

/--
An overdue sum precedes another of its age. Older tasks that lack an operand or a dependency are
passed over.
-/
theorem nextTask_least_of_tie :
    let one := Task.literal (Id.ofNat 9) 1.0 (Evaluation.stamp 1)
    let sum (n age : Nat) (right : Task) := Task.composite (Id.ofNat 9) .addition one right 0
      ⟨⟨BitVec.ofNat 128 n⟩, Evaluation.clock age⟩
    let changes : List Change := [.insertAll [one, sum 5 3 one, sum 4 3 one],
      .insertAll [sum 3 2 (sum 4 3 one), sum 2 2 (sum 8 1 one)],
      .start (Id.ofNat 4) (Evaluation.clock 3)]
    let c : Coordinator := ⟨.instant, some (.ofMillis 10), ⟨∅, .changeAll .empty changes⟩⟩
    let back := (c.requeueOverdue (Evaluation.clock 13)).2
    ∃ t, (c.nextTask (Evaluation.clock 13) (Evaluation.clock 14)).1 = some t ∧ t.id = Id.ofNat 4 ∧
      t.status = .processing ∧ t.startedAt = some (Evaluation.clock 14) ∧
      (c.nextTask (Evaluation.clock 13) (Evaluation.clock 14)).2.store.tasks.queue =
        back.store.tasks.queue.erase ⟨Evaluation.clock 3, Id.ofNat 4⟩ := by
  intro one sum changes c back
  have hid : (c.nextTask (Evaluation.clock 13) (Evaluation.clock 14)).1.map
      (fun t => (t.id, t.createdAt)) =
        some (Id.ofNat 4, Evaluation.clock 3) := by decide
  obtain ⟨t, ht, hid⟩ := Option.map_eq_some_iff.1 hid
  obtain ⟨-, -, -, hsome⟩ := nextTask_least .instant (some (.ofMillis 10)) ∅ changes
    (Evaluation.clock 13) (Evaluation.clock 14)
  obtain ⟨u, -, -, rfl, -, hstore⟩ := hsome t ht
  obtain ⟨hid, hage⟩ := Prod.mk.inj hid
  refine ⟨_, ht, hid, rfl, rfl, ?_⟩
  rw [hstore, ← hid, ← hage]

/-! ## Leases -/

theorem lease_new (times : OperationTimes) (lease : Option UInt64) :
    (new times lease).lease = lease := by
  cases lease with
  | none => rfl
  | some ms => exact congrArg some (Duration.millis_ofMillis ms)

theorem mem_requeueOverdue {c : Coordinator} (h : c.store.tasks.Indexed) {now : Instant}
    {i : TaskId} :
    i ∈ (c.requeueOverdue now).1 ↔ ∃ L t s, c.term = some L ∧ c.store.tasks.get? i = some t ∧
      t.status = .processing ∧ t.startedAt = some s ∧ TaskTable.RunsOut L s now := by
  have hmem : i ∈ (c.requeueOverdue now).1 ↔ _ := TaskTable.mem_overdue h
  simp only [hmem, TaskTable.isOverdue_iff, exists_and_left]

theorem get?_of_requeueOverdue {c : Coordinator} (h : c.store.tasks.Indexed) (now : Instant)
    (i : TaskId) :
    (c.requeueOverdue now).2.store.tasks.get? i = (c.store.tasks.get? i).map fun t =>
      if i ∈ (c.requeueOverdue now).1 then t.requeue else t := by
  have hget : _ = (c.store.tasks.get? i).map _ :=
    TaskTable.get?_foldl_requeue i (c.requeueOverdue now).1 h
  refine hget.trans (Option.map_congr fun t ht => ?_)
  congr 1
  refine propext ⟨And.left, fun hi => ⟨hi, ?_⟩⟩
  obtain ⟨_, u, _, _, hu, hp, -⟩ := (mem_requeueOverdue h).1 hi
  cases ht.symm.trans hu
  exact hp

/--
Exactly the tasks that workers have had for the whole lease, to the nanosecond, come back, each
once. They wait again in the places of the queue that they had, and nothing else is touched. A
second call at that time brings nothing back, and at a later time at least the same tasks would have
come back. Without a lease nothing happens.
-/
theorem requeueOverdue_exact (times : OperationTimes) (lease : Option Duration)
    (expressions : Std.TreeMap ExpressionId Expression) (changes : List Change) {now : Instant}
    (hnow : now.Shown)
    (hshown : ∀ i t s, (TaskTable.changeAll .empty changes).get? i = some t → t.startedAt = some s →
      s.Shown) :
    let c : Coordinator := ⟨times, lease, ⟨expressions, .changeAll .empty changes⟩⟩
    let ids := (c.requeueOverdue now).1
    let back := (c.requeueOverdue now).2
    ids.Nodup ∧
    (∀ i, i ∈ ids ↔ ∃ L t s, lease = some L ∧ c.store.tasks.get? i = some t ∧
      t.status = .processing ∧ t.startedAt = some s ∧ s.ticks s + L.nanos ≤ s.ticks now) ∧
    (∀ i, back.store.tasks.get? i = (c.store.tasks.get? i).map fun t =>
      if i ∈ ids then { t with status := .pending, startedAt := none } else t) ∧
    (∀ k, k ∈ back.store.tasks.queue ↔ k ∈ c.store.tasks.queue ∨
      ∃ t, c.store.tasks.get? k.id = some t ∧ k.id ∈ ids ∧ (⟨t.createdAt, t.id⟩ : QueueKey) = k) ∧
    back = { c with store := { c.store with tasks := { c.store.tasks with
      tasks := back.store.tasks.tasks, queue := back.store.tasks.queue } } } ∧
    back.requeueOverdue now = ([], back) ∧
    (∀ later, now.notAfter later = true → ∀ i ∈ ids, i ∈ (c.requeueOverdue later).1) ∧
    (lease = none → ids = [] ∧ back = c) := by
  intro c ids back
  have h : c.store.tasks.Indexed := (TaskTable.tracks_changeAll .empty changes).indexed
  have hback : back.store.tasks.Indexed := h.foldl_requeue _
  have hget := get?_of_requeueOverdue h now
  refine ⟨TaskTable.nodup_overdue h _ _, fun i => ?_, hget, fun k => ?_, ?_, ?_, ?_, ?_⟩
  · rw [mem_requeueOverdue h]
    constructor
    · rintro ⟨L, t, s, hL, ht, hp, hs, hout⟩
      exact ⟨L, t, s, hL, ht, hp, hs,
        (Instant.exists_later?_iff (hshown i t s ht hs) hnow _).1 hout⟩
    · rintro ⟨L, t, s, hL, ht, hp, hs, hout⟩
      exact ⟨L, t, s, hL, ht, hp, hs,
        (Instant.exists_later?_iff (hshown i t s ht hs) hnow _).2 hout⟩
  · rw [hback.mem_queue, h.mem_queue, hget]
    cases c.store.tasks.get? k.id with
    | none => simp
    | some t =>
      by_cases hi : k.id ∈ ids
      · simp [ids, hi, Task.requeue, Task.queueKey]
      · simp [ids, hi]
  · obtain ⟨hconsumers, howner⟩ := TaskTable.fields_foldl_requeue ids c.store.tasks
    dsimp only
    rw [← hconsumers, ← howner]
    rfl
  · exact requeueOverdue_of_nil (TaskTable.overdue_requeueOverdue h c.term now)
  · intro later hle i hi
    obtain ⟨L, t, s, hL, ht, hp, hs, deadline, hd, hout⟩ := (mem_requeueOverdue h).1 hi
    exact (mem_requeueOverdue h).2 ⟨L, t, s, hL, ht, hp, hs, deadline, hd,
      Instant.notAfter_trans hout hle⟩
  · rintro rfl
    have hnil : c.requeueOverdue now = ([], c) := requeueOverdue_of_nil rfl
    exact ⟨congrArg Prod.fst hnil, congrArg Prod.snd hnil⟩

/--
One sum runs out of its lease to the millisecond, another has a millisecond left, and a third has
been stored as a task in hand without a start. Only the first comes back, and under the longest of
leases none does.
-/
theorem requeueOverdue_exact_at_deadline :
    let one := Task.literal (Id.ofNat 9) 1.0 (Evaluation.stamp 1)
    let sum (n : Nat) := Task.composite (Id.ofNat 9) .addition one one 0 (Evaluation.stamp n)
    let changes : List Change :=
      [.insertAll [one, sum 2, sum 3, { sum 4 with status := .processing }],
      .start (Id.ofNat 2) (Evaluation.clock 5), .start (Id.ofNat 3) (Evaluation.clock 6)]
    let s : Store := ⟨∅, .changeAll .empty changes⟩
    let now := Evaluation.clock 15
    (Coordinator.requeueOverdue ⟨.instant, some (.ofMillis 10), s⟩ now).1 = [Id.ofNat 2] ∧
    (∃ t started, s.tasks.get? (Id.ofNat 2) = some t ∧ t.startedAt = some started ∧
      started.second * Instant.billion + started.nano + 10 * 1000000 ≤
        now.second * Instant.billion + now.nano) ∧
    (Coordinator.requeueOverdue ⟨.instant, some (.ofMillis 10), s⟩ now).2.store.tasks.queue.toList =
      [⟨Evaluation.clock 2, Id.ofNat 2⟩] ∧
    (Coordinator.requeueOverdue ⟨.instant, some ⟨0xffffffffffffffff, 999999999, by decide⟩, s⟩
      now).1 = [] := by
  intro one sum changes s now
  have hshown : ∀ t ∈ s.tasks.tasks.values, ∀ started ∈ t.startedAt,
      started.isRepresentable = true ∧ started.nano < Instant.billion := by decide
  have hids : (Coordinator.requeueOverdue ⟨.instant, some (.ofMillis 10), s⟩ now).1 =
      [Id.ofNat 2] := by decide
  have hnow : now.Shown := ⟨by decide, by decide⟩
  obtain ⟨-, hmem, -⟩ := requeueOverdue_exact .instant (some (.ofMillis 10)) ∅ changes hnow
    fun i t started ht hs =>
    have ⟨hrange, hnano⟩ := hshown t (mem_values.2 ⟨i, ht⟩) started hs
    ⟨hrange, by omega⟩
  obtain ⟨L, t, started, hL, ht, -, hs, hticks⟩ :=
    (hmem (Id.ofNat 2)).1 (hids ▸ List.mem_singleton_self _)
  cases hL
  have hnano := (hshown t (mem_values.2 ⟨_, ht⟩) started hs).2
  rw [Instant.ticks_eq started hnano hnano, Instant.ticks_eq started hnano (by decide),
    Duration.nanos_ofMillis] at hticks
  exact ⟨hids, ⟨t, started, ht, hs, hticks⟩, by decide, by decide⟩

end Coordinator

end Reckoner
