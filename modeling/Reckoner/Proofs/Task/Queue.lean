import Reckoner.Dispatch
import Reckoner.Proofs.Task.Index

/-!
# The queue

The queue lists every pending task once, older tasks first. So the first eligible task of the queue
precedes every other eligible task of the table, though eligibility is about the whole table and the
queue is an index over it.
-/

namespace Reckoner.TaskTable

theorem isEligible_iff {table : TaskTable} {t : Task} : table.isEligible t = true ↔
    t.status = .pending ∧
    (∀ d ∈ t.dependencies, ∃ u, table.get? d = some u ∧ u.status = .completed) ∧
      ∃ a b, t.operandValues = some (a, b) := by
  simp only [isEligible, Bool.and_eq_true, beq_iff_eq, List.all_eq_true, Option.any_eq_true,
    Option.isSome_iff_exists, Prod.exists, and_assoc]

theorem find?_filterMap {α β : Type} (f : α → Option β) (p : β → Bool) :
    ∀ l : List α, (l.filterMap f).find? p = l.findSome? fun a => (f a).filter p
  | [] => rfl
  | a :: l => by
    rw [List.filterMap_cons, List.findSome?_cons]
    cases hf : f a with
    | none => exact find?_filterMap f p l
    | some b =>
      rw [List.find?_cons, Option.filter_some]
      cases p b with
      | true => rfl
      | false => exact find?_filterMap f p l

theorem nextEligible?_eq (table : TaskTable) :
    table.nextEligible? = table.pending.find? table.isEligible :=
  (find?_filterMap ..).symm

namespace Indexed

variable {table : TaskTable} (h : table.Indexed)
include h

/-- The pending tasks in the order of the queue, of which each has a place of its own. -/
theorem queueKey_pending : table.pending.map Task.queueKey = table.queue.toList := by
  rw [pending, List.map_filterMap]
  refine (List.filterMap_congr fun k hk => ?_).trans List.filterMap_some
  obtain ⟨t, ht, -, hq⟩ := h.mem_queue.1 (Std.TreeSet.mem_toList.1 hk)
  rw [ht, Option.map_some, hq]

theorem mem_pending {t : Task} : t ∈ table.pending ↔
    table.get? t.id = some t ∧ t.status = .pending := by
  simp only [pending, List.mem_filterMap, Std.TreeSet.mem_toList, h.mem_queue]
  constructor
  · rintro ⟨k, ⟨u, hu, hp, -⟩, ht⟩
    cases hu.symm.trans ht
    exact ⟨h.id_eq ht ▸ ht, hp⟩
  · rintro ⟨ht, hp⟩
    exact ⟨t.queueKey, ⟨t, ht, hp, rfl⟩, ht⟩

theorem pairwise_pending : table.pending.Pairwise fun t u =>
    compare t.queueKey u.queueKey = .lt := by
  rw [← List.pairwise_map (R := fun a b : QueueKey => compare a b = .lt), h.queueKey_pending]
  exact Std.TreeSet.ordered_toList

theorem mem_pending_of_isEligible {i : TaskId} {t : Task} (ht : table.get? i = some t)
    (he : table.isEligible t = true) : t ∈ table.pending := by
  cases h.id_eq ht
  exact h.mem_pending.2 ⟨ht, (isEligible_iff.1 he).1⟩

theorem nextEligible?_eq_none : table.nextEligible? = none ↔
    ∀ i t, table.get? i = some t → table.isEligible t = false := by
  rw [nextEligible?_eq, List.find?_eq_none]
  constructor
  · intro hn i t ht
    by_contra he
    rw [Bool.not_eq_false] at he
    exact hn t (h.mem_pending_of_isEligible ht he) he
  · intro hn t ht he
    rw [hn _ t (h.mem_pending.1 ht).1] at he
    cases he

theorem of_nextEligible?_eq_some {u : Task} (hu : table.nextEligible? = some u) :
    table.get? u.id = some u ∧ table.isEligible u = true ∧
      ∀ i v, table.get? i = some v → table.isEligible v = true → v ≠ u →
        compare u.queueKey v.queueKey = .lt := by
  rw [nextEligible?_eq, List.find?_eq_some_iff_append] at hu
  obtain ⟨he, before, after, hpending, hbefore⟩ := hu
  have hmem : u ∈ table.pending := by simp [hpending]
  refine ⟨(h.mem_pending.1 hmem).1, he, fun i v hv hev hne => ?_⟩
  -- an eligible task is in the queue, but not before the first one
  have hv := h.mem_pending_of_isEligible hv hev
  have horder := h.pairwise_pending
  rw [hpending, List.pairwise_append] at horder
  rw [hpending, List.mem_append, List.mem_cons] at hv
  rcases hv with hv | rfl | hv
  · simpa [hev] using hbefore v hv
  · exact absurd rfl hne
  · exact (List.pairwise_cons.1 horder.2.1).1 v hv

theorem dispatch?_eq (now : Instant) : table.dispatch? now =
    table.nextEligible?.map fun u => (u.start now, table.put u (u.start now)) := by
  rw [dispatch?]
  cases hu : table.nextEligible? with
  | none => rfl
  | some u =>
    obtain ⟨hget, he, -⟩ := h.of_nextEligible?_eq_some hu
    exact start?_eq_some hget (isEligible_iff.1 he).1 now

end Indexed

theorem dispatch?_eq_some {table table' : TaskTable} (h : table.Indexed) {t : Task} {now : Instant}
    (hd : table.dispatch? now = some (t, table')) :
    ∃ u, table.get? u.id = some u ∧ table.isEligible u = true ∧ t = u.start now ∧
      table' = table.put u t := by
  rw [h.dispatch?_eq, Option.map_eq_some_iff] at hd
  obtain ⟨u, hu, e⟩ := hd
  cases e
  obtain ⟨hget, he, -⟩ := h.of_nextEligible?_eq_some hu
  exact ⟨u, hget, he, rfl, rfl⟩

theorem put_start {table : TaskTable} {t : Task} (hp : t.status = .pending) (now : Instant) :
    table.put t (t.start now) =
      { table with
        tasks := table.tasks.insert t.id (t.start now), queue :=
        table.queue.erase t.queueKey } := by
  simp [put, hp, Task.start]

/--
A task that goes to a worker is as little completed as it was, so what is eligible beside it stays
the same.
-/
theorem isEligible_put_start {table : TaskTable} {u : Task} (hu : table.get? u.id = some u)
    (hp : u.status = .pending) (now : Instant) (t : Task) :
    (table.put u (u.start now)).isEligible t = table.isEligible t := by
  have hcompleted : ∀ d,
      (∃ v, (table.put u (u.start now)).get? d = some v ∧ v.status = .completed) ↔
        ∃ v, table.get? d = some v ∧ v.status = .completed := by
    intro d
    rw [get?_put]
    by_cases hd : (u.start now).id = d
    · have hd' : u.id = d := hd
      subst hd'
      simp [hu, hp, Task.start]
    · rw [if_neg hd]
  rw [Bool.eq_iff_iff, isEligible_iff, isEligible_iff]
  simp only [hcompleted]

end Reckoner.TaskTable
