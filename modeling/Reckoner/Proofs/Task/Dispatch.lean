import Reckoner.Proofs.Task.Queue
import Reckoner.Proofs.Task.Slots

/-!
# Tasks on their way to workers and back

Neither dispatch nor the return of a task changes the standing of any task (`Calm`). A task comes
back when its worker has had it for the whole lease, and no other task does.
-/

namespace Reckoner.TaskTable

/-! ## Calm changes -/

structure Calm (a b : TaskTable) : Prop where
  idsOf : ∀ o, b.idsOf o = a.idsOf o
  standing : ∀ i, (b.get? i).map Task.standing = (a.get? i).map Task.standing

namespace Calm

theorem refl (a : TaskTable) : a.Calm a := ⟨fun _ => rfl, fun _ => rfl⟩

theorem trans {a b c : TaskTable} (h : a.Calm b) (h' : b.Calm c) : a.Calm c :=
  ⟨fun o => (h'.idsOf o).trans (h.idsOf o), fun i => (h'.standing i).trans (h.standing i)⟩

theorem put {table : TaskTable} {old t : Task} (hold : table.get? t.id = some old)
    (hs : t.standing = old.standing) : table.Calm (table.put old t) where
  idsOf _ := rfl
  standing i := by
    rw [get?_put]
    split
    · rename_i e
      rw [← e, hold, Option.map_some, Option.map_some, hs]
    · rfl

theorem requeue {table : TaskTable} (h : table.Indexed) (i : TaskId) :
    table.Calm (table.requeue i) := by
  rcases h.requeue_cases i with e | ⟨t, ht, -, hp, e⟩ <;> rw [e]
  · exact refl table
  · exact put (t := t.requeue) ht (t.standing_requeue hp)

theorem ofOwner {a b : TaskTable} (h : a.Calm b) (o : ExpressionId) :
    (b.ofOwner o).map Task.standing = (a.ofOwner o).map Task.standing :=
  map_ofOwner_congr (h.idsOf o) fun i _ => h.standing i

theorem exists_get? {a b : TaskTable} (h : a.Calm b) {i : TaskId} {u : Task}
    (hu : b.get? i = some u) : ∃ t, a.get? i = some t ∧ u.standing = t.standing := by
  have hi := h.standing i
  rw [hu] at hi
  obtain ⟨t, ht, e⟩ := Option.map_eq_some_iff.1 hi.symm
  exact ⟨t, ht, e.symm⟩

end Calm

theorem Indexed.foldl_requeue : ∀ (ids : List TaskId) {table : TaskTable}, table.Indexed →
    (ids.foldl TaskTable.requeue table).Indexed
  | [], _, h => h
  | i :: ids, _, h => foldl_requeue ids (h.requeue i)

theorem Calm.foldl_requeue : ∀ (ids : List TaskId) {table : TaskTable}, table.Indexed →
    table.Calm (ids.foldl TaskTable.requeue table)
  | [], table, _ => .refl table
  | i :: ids, _, h => (Calm.requeue h i).trans (foldl_requeue ids (h.requeue i))

theorem Sound.foldl_requeue : ∀ (ids : List TaskId) {table : TaskTable}, table.Sound →
    (ids.foldl TaskTable.requeue table).Sound
  | [], _, h => h
  | i :: ids, _, h => foldl_requeue ids (h.requeue i)

theorem Sound.requeueOverdue {table : TaskTable} (h : table.Sound) (lease : Option Duration)
    (now : Instant) :
    (table.requeueOverdue lease now).2.Sound ∧ table.Calm (table.requeueOverdue lease now).2 :=
  ⟨h.foldl_requeue _, .foldl_requeue _ h.indexed⟩

/-! ## The return of tasks -/

theorem get?_requeue {table : TaskTable} (h : table.Indexed) (i j : TaskId) :
    (table.requeue i).get? j =
      (table.get? j).map fun t => if i = j ∧ t.status = .processing then t.requeue else t := by
  by_cases hp : ∃ t, table.get? i = some t ∧ t.status = .processing
  · obtain ⟨t, ht, hp⟩ := hp
    cases h.id_eq ht
    rw [requeue_eq_put ht hp, get?_put]
    by_cases hj : t.id = j
    · subst hj
      simp [Task.requeue, ht, hp]
    · have hj' : t.requeue.id ≠ j := hj
      simp [hj, hj']
  · rw [requeue_eq_self fun t ht hs => hp ⟨t, ht, hs⟩]
    cases hj : table.get? j with
    | none => rfl
    | some u =>
      rw [Option.map_some, if_neg]
      rintro ⟨rfl, hu⟩
      exact hp ⟨u, hj, hu⟩

theorem get?_foldl_requeue (j : TaskId) : ∀ (ids : List TaskId) {table : TaskTable}, table.Indexed →
    (ids.foldl requeue table).get? j =
      (table.get? j).map fun t => if j ∈ ids ∧ t.status = .processing then t.requeue else t
  | [], table, _ => by simp
  | i :: ids, table, h => by
    rw [List.foldl_cons, get?_foldl_requeue j ids (h.requeue i), get?_requeue h, Option.map_map]
    congr 1
    funext t
    -- a task that is back stays as it is when it is named again
    by_cases hi : i = j
    · by_cases hp : t.status = .processing <;> simp [hi, hp, Task.requeue]
    · simp [hi, Ne.symm hi]

/-- The return of tasks leaves the consumers and the tasks of each expression alone. -/
theorem fields_foldl_requeue : ∀ (ids : List TaskId) (table : TaskTable),
    (ids.foldl requeue table).consumers = table.consumers ∧
    (ids.foldl requeue table).byOwner = table.byOwner
  | [], _ => ⟨rfl, rfl⟩
  | i :: ids, table => by
    have hone : (table.requeue i).consumers = table.consumers ∧
        (table.requeue i).byOwner = table.byOwner := by
      unfold requeue
      split
      · exact ⟨rfl, rfl⟩
      · split <;> exact ⟨rfl, rfl⟩
    obtain ⟨hc, ho⟩ := fields_foldl_requeue ids (table.requeue i)
    exact ⟨hc.trans hone.1, ho.trans hone.2⟩

theorem get?_of_foldl_requeue {j : TaskId} {t : Task} (hp : t.status ≠ .pending) {ids : List TaskId}
    {table : TaskTable} (h : table.Indexed) (ht : (ids.foldl requeue table).get? j = some t) :
    table.get? j = some t := by
  rw [get?_foldl_requeue j ids h] at ht
  obtain ⟨u, hu, e⟩ := Option.map_eq_some_iff.1 ht
  split at e
  · cases e
    exact absurd rfl hp
  · rwa [e] at hu

/-- By `now` a worker that took its task at `started` has had it for the whole lease. -/
def RunsOut (lease : Duration) (started now : Instant) : Prop :=
  ∃ deadline, started.later? lease = some deadline ∧ deadline.notAfter now = true

theorem isOverdue_iff {lease : Duration} {now : Instant} {t : Task} : isOverdue lease now t = true ↔
    t.status = .processing ∧ ∃ started, t.startedAt = some started ∧ RunsOut lease started now := by
  simp only [isOverdue, RunsOut, Bool.and_eq_true, beq_iff_eq]
  refine and_congr_right fun _ => ?_
  cases hs : t.startedAt with
  | none => simp
  | some started => cases hd : started.later? lease <;> simp [hd]

theorem mem_overdue {table : TaskTable} (h : table.Indexed) {lease : Option Duration}
    {now : Instant} {i : TaskId} :
    i ∈ table.overdue lease now ↔
      ∃ L t, lease = some L ∧ table.get? i = some t ∧ isOverdue L now t = true := by
  cases lease with
  | none => simp [overdue]
  | some L =>
    simp only [overdue, List.mem_map, List.mem_filter, mem_values, Option.some.injEq]
    constructor
    · rintro ⟨t, ⟨⟨j, ht⟩, ho⟩, rfl⟩
      rw [h.id_eq ht]
      exact ⟨L, t, rfl, ht, ho⟩
    · rintro ⟨_, t, rfl, ht, ho⟩
      exact ⟨t, ⟨⟨i, ht⟩, ho⟩, h.id_eq ht⟩

theorem nodup_overdue {table : TaskTable} (h : table.Indexed) (lease : Option Duration)
    (now : Instant) : (table.overdue lease now).Nodup := by
  cases lease with
  | none => exact List.nodup_nil
  | some L =>
    have hall : (table.tasks.values.map Task.id).Nodup := by
      rw [map_values h.id_eq]
      exact Std.TreeMap.nodup_keys
    exact hall.sublist (List.filter_sublist.map Task.id)

theorem get?_requeueOverdue {table : TaskTable} (h : table.Indexed) (lease : Option Duration)
    (now : Instant) (i : TaskId) : (table.requeueOverdue lease now).2.get? i =
      (table.get? i).map fun t => if lease.any (isOverdue · now t) then t.requeue else t := by
  have hfold := get?_foldl_requeue i (table.overdue lease now) h
  rw [requeueOverdue]
  refine hfold.trans ?_
  cases ht : table.get? i with
  | none => rfl
  | some t =>
    refine congrArg some (if_congr ?_ rfl rfl)
    rw [mem_overdue h, Option.any_eq_true]
    constructor
    · rintro ⟨⟨L, u, hl, hu, ho⟩, -⟩
      cases ht.symm.trans hu
      exact ⟨L, hl, ho⟩
    · rintro ⟨L, hl, ho⟩
      exact ⟨⟨L, t, hl, ht, ho⟩, (isOverdue_iff.1 ho).1⟩

/-- A task that is back is with no worker, so it is not overdue. -/
theorem overdue_requeueOverdue {table : TaskTable} (h : table.Indexed) (lease : Option Duration)
    (now : Instant) : (table.requeueOverdue lease now).2.overdue lease now = [] := by
  refine List.eq_nil_iff_forall_not_mem.2 fun i hi => ?_
  obtain ⟨L, t, rfl, ht, ho⟩ := (mem_overdue (h.foldl_requeue _)).1 hi
  obtain ⟨u, -, rfl⟩ :=
    Option.map_eq_some_iff.1 ((get?_requeueOverdue h (some L) now i).symm.trans ht)
  split at ho
  · exact absurd (isOverdue_iff.1 ho).1 (by simp [Task.requeue])
  · rename_i hu
    exact hu (by simpa using ho)

end Reckoner.TaskTable
