import Reckoner.Proofs.Task.Table
import Mathlib.Data.List.Perm.Subperm

/-!
# The indexes of the task table

The consumers, the tasks by owner and the queue say what the tasks say (`Indexed`), and every
change of the table keeps it so.
-/

namespace Reckoner.TaskTable

/-! ## Reports and dispatch as `put` -/

theorem replace_eq_ok {table : TaskTable} {old t : Task} (h : table.get? t.id = some old)
    (ho : t.owner = old.owner) (hd : t.dependencies = old.dependencies) :
    table.replace t = (.ok (), (table.put old t).settle t) := by
  simp only [replace, h, ho, hd, ne_eq, not_true_eq_false, or_self, if_false]
  rfl

def Refuses (table : TaskTable) (t : Task) : Prop :=
  table.get? t.id = none ∨
    ∃ old, table.get? t.id = some old ∧ (old.owner ≠ t.owner ∨ old.dependencies ≠ t.dependencies)

theorem replace_cases (table : TaskTable) (t : Task) :
    table.Refuses t ∧ (∃ fault, table.replace t = (.error fault, table)) ∨
    ¬ table.Refuses t ∧ ∃ old, table.get? t.id = some old ∧ t.owner = old.owner ∧
      t.dependencies = old.dependencies ∧ table.replace t =
        (.ok (), (table.put old t).settle t) := by
  cases hold : table.get? t.id with
  | none => exact .inl ⟨.inl hold, _, by simp only [replace, hold]; rfl⟩
  | some old =>
    by_cases hd : old.owner ≠ t.owner ∨ old.dependencies ≠ t.dependencies
    · exact .inl ⟨.inr ⟨old, hold, hd⟩, _, by simp only [replace, hold, if_pos hd]; rfl⟩
    · refine .inr ⟨?_, ?_⟩
      · rintro (hnone | ⟨old', hold', hd'⟩)
        · rw [hold] at hnone
          cases hnone
        · cases hold.symm.trans hold'
          exact hd hd'
      · rw [not_or, not_ne_iff, not_ne_iff] at hd
        exact ⟨old, rfl, hd.1.symm, hd.2.symm, replace_eq_ok hold hd.1.symm hd.2.symm⟩

theorem of_replace_eq_ok {table table' : TaskTable} {t : Task}
    (h : table.replace t = (.ok (), table')) :
    ∃ old, table.get? t.id = some old ∧ t.owner = old.owner ∧ t.dependencies = old.dependencies ∧
      table' = (table.put old t).settle t := by
  rcases table.replace_cases t with ⟨-, fault, e⟩ | ⟨-, old, hold, ho, hd, e⟩ <;> rw [e] at h
  · cases h
  · exact ⟨old, hold, ho, hd, (congrArg Prod.snd h).symm⟩

theorem get?_of_replace_eq_ok {table table' : TaskTable} {t u : Task} {i : TaskId}
    (h : table.replace t = (.ok (), table')) (hu : table.get? i = some u) (hne : t.id ≠ i) :
    ∃ u', table'.get? i = some u' ∧
      (u' = u ∨ ∃ r, t.completedResult = some r ∧ u' = u.resolve t.id r) := by
  obtain ⟨old, -, -, -, rfl⟩ := of_replace_eq_ok h
  have hput : (table.put old t).get? i = some u := by rw [get?_put, if_neg hne, hu]
  have hsettle := get?_settle (table.put old t) t i
  rw [hput, Option.map_some] at hsettle
  refine ⟨_, hsettle, ?_⟩
  cases hc : t.completedResult with
  | none => exact .inl rfl
  | some r =>
    dsimp only
    split
    · exact .inr ⟨r, rfl, rfl⟩
    · exact .inl rfl

theorem start?_eq_some {table : TaskTable} {t : Task} (h : table.get? t.id = some t)
    (hp : t.status = .pending) (now : Instant) :
    table.start? t.id now = some (t.start now, table.put t (t.start now)) := by
  simp [start?, h, hp, put, Task.start]

theorem requeue_eq_put {table : TaskTable} {t : Task} (h : table.get? t.id = some t)
    (hp : t.status = .processing) : table.requeue t.id = table.put t t.requeue := by
  simp [requeue, h, hp, put, Task.requeue, Task.queueKey]

theorem requeue_eq_self {table : TaskTable} {i : TaskId}
    (h : ∀ t, table.get? i = some t → t.status ≠ .processing) : table.requeue i = table := by
  unfold requeue
  split
  · rfl
  · rename_i t ht
    rw [if_neg (h t ht)]

/-! ## Indexes of a new task -/

theorem getD_append {α β : Type} [DecidableEq α] [Ord α] [Std.TransOrd α] [Std.LawfulEqOrd α]
    (map : Std.TreeMap α (List β)) (k k' : α) (v : β) :
    (append map k v).getD k' [] = map.getD k' [] ++ if k = k' then [v] else [] := by
  rw [append, Std.TreeMap.getD_alter]
  by_cases e : k = k'
  · subst e
    rw [if_pos (Std.compare_eq_iff_eq.2 rfl), if_pos rfl, Option.getD_some,
      Std.TreeMap.getD_eq_getD_getElem?]
  · rw [if_neg (mt Std.compare_eq_iff_eq.1 e), if_neg e, List.append_nil]

theorem consumersOf_add (table : TaskTable) (t : Task) (i : TaskId) :
    (table.add t).consumersOf i = table.consumersOf i ++
      List.replicate (t.dependencies.count i) t.id := by
  simp only [consumersOf, add]
  generalize table.consumers = map
  induction t.dependencies generalizing map with
  | nil => simp
  | cons d ds ih =>
    rw [List.foldl_cons, ih, getD_append, List.append_assoc, List.count_cons]
    congr 1
    by_cases e : d = i
    · simp [e, List.replicate_succ]
    · simp [e]

theorem idsOf_add (table : TaskTable) (t : Task) (o : ExpressionId) :
    (table.add t).idsOf o = table.idsOf o ++ if t.owner = o then [t.id] else [] :=
  getD_append table.byOwner t.owner o t.id

/-! ## True indexes -/

/-- Tasks stand under their identifiers, and each index says what the tasks say. -/
structure Indexed (table : TaskTable) : Prop where
  id_eq : ∀ {i t}, table.get? i = some t → t.id = i
  /-- The queue holds exactly the pending tasks. -/
  mem_queue : ∀ {k}, k ∈ table.queue ↔ ∃ t, table.get? k.id = some t ∧ t.status = .pending ∧
    t.queueKey = k
  /-- A consumer is listed once for every time that it lists the dependency. -/
  count_consumers : ∀ i j,
    (table.consumersOf i).count j = ((table.get? j).map fun t => t.dependencies.count i).getD 0
  mem_idsOf : ∀ {o i}, i ∈ table.idsOf o ↔ ∃ t, table.get? i = some t ∧ t.owner = o
  nodup_idsOf : ∀ o, (table.idsOf o).Nodup

namespace Indexed

theorem empty : TaskTable.empty.Indexed where
  id_eq h := by simp at h
  mem_queue {k} := by
    simp only [get?_empty, reduceCtorEq, false_and, exists_false, iff_false]
    exact Std.TreeSet.not_mem_emptyc
  count_consumers i j := by
    rw [get?_empty]
    rfl
  mem_idsOf {o i} := by
    simp only [get?_empty, reduceCtorEq, false_and, exists_false, iff_false]
    exact List.not_mem_nil
  nodup_idsOf _ := List.nodup_nil

variable {table : TaskTable} (h : table.Indexed)
include h

theorem mem_consumersOf {i j : TaskId} :
    j ∈ table.consumersOf i ↔ ∃ t, table.get? j = some t ∧ i ∈ t.dependencies := by
  rw [← List.count_pos_iff, h.count_consumers]
  cases table.get? j with
  | none => simp
  | some t => simp [List.count_pos_iff]

theorem mem_ofOwner {o : ExpressionId} {t : Task} :
    t ∈ table.ofOwner o ↔ table.get? t.id = some t ∧ t.owner = o := by
  simp only [ofOwner_eq, List.mem_filterMap, h.mem_idsOf]
  constructor
  · rintro ⟨i, ⟨u, hu, ho⟩, ht⟩
    cases hu.symm.trans ht
    cases h.id_eq ht
    exact ⟨ht, ho⟩
  · rintro ⟨ht, ho⟩
    exact ⟨t.id, ⟨t, ht, ho⟩, ht⟩

theorem ids_ofOwner (o : ExpressionId) : (table.ofOwner o).map Task.id = table.idsOf o := by
  rw [map_ofOwner]
  refine (List.filterMap_congr fun i hi => ?_).trans List.filterMap_some
  obtain ⟨t, ht, -⟩ := h.mem_idsOf.1 hi
  rw [ht, Option.map_some, h.id_eq ht]

theorem length_idsOf_le (o : ExpressionId) : (table.idsOf o).length ≤ table.size := by
  have hsub : table.idsOf o ⊆ table.tasks.keys := by
    intro i hi
    obtain ⟨t, ht, -⟩ := h.mem_idsOf.1 hi
    rw [Std.TreeMap.mem_keys, Std.TreeMap.mem_iff_isSome_getElem?]
    exact Option.isSome_iff_exists.2 ⟨t, ht⟩
  have hlength := ((h.nodup_idsOf o).subperm hsub).length_le
  rwa [Std.TreeMap.length_keys] at hlength

/-- Changes that leave the indexes alone may change the rest of a task as they like. -/
theorem of_fields {table' : TaskTable} (hc : table'.consumers = table.consumers)
    (ho : table'.byOwner = table.byOwner) (hq : table'.queue = table.queue)
    (hf : ∀ i,
      (table'.get? i).map (fun t => (t.id, t.owner, t.dependencies, t.status, t.createdAt)) =
        (table.get? i).map (fun t => (t.id, t.owner, t.dependencies, t.status, t.createdAt))) :
    table'.Indexed := by
  have back : ∀ {i t}, table'.get? i = some t → ∃ u, table.get? i = some u ∧ u.id = t.id ∧
      u.owner = t.owner ∧ u.dependencies = t.dependencies ∧ u.status = t.status ∧
      u.createdAt = t.createdAt := by
    intro i t ht
    have hi := hf i
    rw [ht] at hi
    obtain ⟨u, hu, e⟩ := Option.map_eq_some_iff.1 hi.symm
    simp only [Prod.mk.injEq] at e
    exact ⟨u, hu, e⟩
  have forth : ∀ {i t}, table.get? i = some t → ∃ u, table'.get? i = some u ∧ u.id = t.id ∧
      u.owner = t.owner ∧ u.dependencies = t.dependencies ∧ u.status = t.status ∧
      u.createdAt = t.createdAt := by
    intro i t ht
    have hi := hf i
    rw [ht] at hi
    obtain ⟨u, hu, e⟩ := Option.map_eq_some_iff.1 hi
    simp only [Prod.mk.injEq] at e
    exact ⟨u, hu, e⟩
  constructor
  · intro i t ht
    obtain ⟨u, hu, e, -⟩ := back ht
    rw [← e, h.id_eq hu]
  · intro k
    rw [hq, h.mem_queue]
    constructor
    · rintro ⟨t, ht, hp, rfl⟩
      obtain ⟨u, hu, hi, -, -, hs, hct⟩ := forth ht
      exact ⟨u, hu, hs.trans hp, by simp [Task.queueKey, hi, hct]⟩
    · rintro ⟨t, ht, hp, rfl⟩
      obtain ⟨u, hu, hi, -, -, hs, hct⟩ := back ht
      exact ⟨u, hu, hs.trans hp, by simp [Task.queueKey, hi, hct]⟩
  · intro i j
    have := congrArg (Option.map fun p => List.count i p.2.2.1) (hf j)
    simp only [Option.map_map, Function.comp_def] at this
    rw [this, ← h.count_consumers i j]
    simp only [consumersOf, hc]
  · intro o i
    simp only [idsOf, ho]
    rw [← idsOf, h.mem_idsOf]
    constructor
    · rintro ⟨t, ht, rfl⟩
      obtain ⟨u, hu, -, e, -⟩ := forth ht
      exact ⟨u, hu, e⟩
    · rintro ⟨t, ht, rfl⟩
      obtain ⟨u, hu, -, e, -⟩ := back ht
      exact ⟨u, hu, e⟩
  · intro o
    simp only [idsOf, ho]
    exact h.nodup_idsOf o

theorem settle (p : Task) : (table.settle p).Indexed := by
  have hc : (table.settle p).consumers = table.consumers := by
    unfold TaskTable.settle; split <;> rfl
  have ho : (table.settle p).byOwner = table.byOwner := by unfold TaskTable.settle; split <;> rfl
  refine h.of_fields hc ho (queue_settle table p) fun i => ?_
  rw [get?_settle, Option.map_map]
  congr 1
  funext t
  simp only [Function.comp]
  split
  · rfl
  · split <;> rfl

theorem put {old t : Task} (hold : table.get? t.id = some old) (ho : t.owner = old.owner)
    (hd : t.dependencies = old.dependencies) : (table.put old t).Indexed where
  id_eq {i u} hu := by
    rw [get?_put] at hu
    split at hu
    · rename_i e
      cases hu; exact e
    · exact h.id_eq hu
  mem_queue {k} := by
    have hid : old.id = t.id := h.id_eq hold
    have erased :
        (k ∈ if old.status = .pending then table.queue.erase old.queueKey else table.queue) ↔
          k.id ≠ t.id ∧ k ∈ table.queue := by
      -- only the old version can stand in the queue under this identifier
      have hk : k ∈ table.queue → k.id = t.id → old.status = .pending ∧ old.queueKey = k := by
        intro hk e
        obtain ⟨u, hu, hp, hq⟩ := h.mem_queue.1 hk
        rw [e, hold] at hu
        cases hu
        exact ⟨hp, hq⟩
      split
      · rw [Std.TreeSet.mem_erase, ne_eq, Std.compare_eq_iff_eq]
        constructor
        · rintro ⟨hne, hm⟩
          exact ⟨fun e => hne (hk hm e).2, hm⟩
        · rintro ⟨hne, hm⟩
          exact ⟨fun e => hne (e ▸ hid), hm⟩
      · rename_i hs
        exact ⟨fun hm => ⟨fun e => hs (hk hm e).1, hm⟩, And.right⟩
    have added : k ∈ (table.put old t).queue ↔
        (t.status = .pending ∧ t.queueKey = k) ∨ (k.id ≠ t.id ∧ k ∈ table.queue) := by
      rw [← erased]
      simp only [TaskTable.put]
      by_cases hs : t.status = .pending
      · rw [if_pos hs, Std.TreeSet.mem_insert, Std.compare_eq_iff_eq]
        simp [hs]
      · rw [if_neg hs]
        simp [hs]
    rw [added, get?_put]
    by_cases e : t.id = k.id
    · rw [if_pos e]
      simp [e.symm]
    · rw [if_neg e, h.mem_queue]
      have : t.queueKey ≠ k := fun hk => e (hk ▸ rfl)
      simp [this, Ne.symm e]
  count_consumers i j := by
    rw [consumersOf_put, h.count_consumers, get?_put]
    split
    · rename_i e
      subst e
      simp [hold, hd]
    · rfl
  mem_idsOf {o i} := by
    rw [idsOf_put, h.mem_idsOf, get?_put]
    split
    · rename_i e
      subst e
      simp [hold, ho]
    · rfl
  nodup_idsOf o := h.nodup_idsOf o

theorem standing_put_settle_of_ne {old t : Task} (hold : table.get? t.id = some old) (p : Task)
    {o : ExpressionId} (ho : old.owner ≠ o) : ∀ i ∈ table.idsOf o,
      (((table.put old t).settle p).get? i).map Task.standing =
        (table.get? i).map Task.standing := by
  intro i hi
  obtain ⟨u, hu, huo⟩ := h.mem_idsOf.1 hi
  rw [map_get?_put_settle Task.standing_resolve, if_neg]
  rintro rfl
  cases hold.symm.trans hu
  exact ho huo

theorem requeue_cases (i : TaskId) : table.requeue i = table ∨ ∃ t, table.get? t.id = some t ∧
    t.id = i ∧
    t.status = .processing ∧ table.requeue i = table.put t t.requeue := by
  by_cases hp : ∃ t, table.get? i = some t ∧ t.status = .processing
  · obtain ⟨t, ht, hp⟩ := hp
    cases h.id_eq ht
    exact .inr ⟨t, ht, rfl, hp, requeue_eq_put ht hp⟩
  · exact .inl (requeue_eq_self fun t ht hs => hp ⟨t, ht, hs⟩)

theorem start?_cases (i : TaskId) (now : Instant) :
    table.start? i now = none ∨ ∃ t, table.get? t.id = some t ∧
    t.id = i ∧ t.status = .pending ∧ table.start? i now =
      some (t.start now, table.put t (t.start now)) := by
  by_cases hp : ∃ t, table.get? i = some t ∧ t.status = .pending
  · obtain ⟨t, ht, hp⟩ := hp
    cases h.id_eq ht
    exact .inr ⟨t, ht, rfl, hp, start?_eq_some ht hp now⟩
  · left
    unfold start?
    split
    · rfl
    · rename_i t ht
      exact if_neg fun hs => hp ⟨t, ht, hs⟩

theorem requeue (i : TaskId) : (table.requeue i).Indexed := by
  rcases h.requeue_cases i with e | ⟨t, ht, -, -, e⟩ <;> rw [e]
  · exact h
  · exact h.put ht rfl rfl

theorem add {t : Task} (hnew : table.get? t.id = none) : (table.add t).Indexed where
  id_eq {i u} hu := by
    rw [get?_add] at hu
    split at hu
    · rename_i e
      cases hu; exact e
    · exact h.id_eq hu
  mem_queue {k} := by
    have added : k ∈ (table.add t).queue ↔ (t.status = .pending ∧ t.queueKey = k) ∨
        k ∈ table.queue := by
      simp only [TaskTable.add]
      by_cases hs : t.status = .pending
      · rw [if_pos hs, Std.TreeSet.mem_insert, Std.compare_eq_iff_eq]
        simp [hs]
      · rw [if_neg hs]
        simp [hs]
    rw [added, h.mem_queue, get?_add]
    by_cases e : t.id = k.id
    · rw [if_pos e, ← e, hnew]
      simp
    · rw [if_neg e]
      have : t.queueKey ≠ k := fun hk => e (hk ▸ rfl)
      simp [this]
  count_consumers i j := by
    rw [consumersOf_add, List.count_append, List.count_replicate, h.count_consumers, get?_add]
    by_cases e : t.id = j
    · subst e
      simp [hnew]
    · simp [e]
  mem_idsOf {o i} := by
    rw [idsOf_add, List.mem_append, h.mem_idsOf, get?_add]
    by_cases e : t.id = i
    · subst e
      by_cases ho : t.owner = o <;> simp [hnew, ho]
    · by_cases ho : t.owner = o <;> simp [e, Ne.symm e, ho]
  nodup_idsOf o := by
    rw [idsOf_add]
    split
    · refine List.nodup_append.2 ⟨h.nodup_idsOf o, by simp, fun i hi j hj e => ?_⟩
      obtain ⟨u, hu, -⟩ := h.mem_idsOf.1 hi
      rw [List.mem_singleton] at hj
      rw [e, hj, hnew] at hu
      cases hu
    · rw [List.append_nil]
      exact h.nodup_idsOf o

end Indexed

theorem Indexed.foldl_settle : ∀ (batch : List Task) {table : TaskTable}, table.Indexed →
    (batch.foldl TaskTable.settle table).Indexed
  | [], _, h => h
  | p :: rest, _, h => foldl_settle rest (h.settle p)

theorem Indexed.foldl_add : ∀ {batch : List Task} {table : TaskTable}, table.Indexed →
    (batch.map Task.id).Nodup →
    (∀ t ∈ batch, table.get? t.id = none) → (batch.foldl TaskTable.add table).Indexed
  | [], _, h, _, _ => h
  | t :: rest, table, h, hn, hf => by
    rw [List.map_cons, List.nodup_cons] at hn
    rw [List.foldl_cons]
    refine foldl_add (h.add (hf t (by simp))) hn.2 fun u hu => ?_
    have hne : t.id ≠ u.id := fun e => hn.1 (e ▸ List.mem_map_of_mem hu)
    rw [get?_add, if_neg hne]
    exact hf u (by simp [hu])

theorem idsOf_foldl_add (o : ExpressionId) : ∀ (batch : List Task) (table : TaskTable),
    (batch.foldl add table).idsOf o = table.idsOf o ++ (batch.filter (·.owner = o)).map Task.id
  | [], table => by simp
  | t :: rest, table => by
    rw [List.foldl_cons, idsOf_foldl_add o rest, idsOf_add, List.append_assoc]
    congr 1
    by_cases ho : t.owner = o <;> simp [ho]

end Reckoner.TaskTable
