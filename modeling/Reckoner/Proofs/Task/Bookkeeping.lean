import Reckoner.Proofs.Task.Changes
import Reckoner.Proofs.Task.Queue

/-!
# Bookkeeping

A table may be filled with any tasks, in any status and with any dependencies, and changed by
anybody. Whichever of the changes it takes, its indexes say what its tasks say, and each expression
lists its tasks in the order of their arrival.
-/

namespace Reckoner.TaskTable

inductive Change where
  | insertAll (batch : List Task)
  | replace (t : Task)
  | start (id : TaskId) (now : Instant)
  | requeue (id : TaskId)
deriving DecidableEq, Repr

def change (table : TaskTable) : Change → TaskTable
  | .insertAll batch => (table.insertAll batch).2
  | .replace t => (table.replace t).2
  | .start id now => (table.start? id now).elim table Prod.snd
  | .requeue id => table.requeue id

def gains (table : TaskTable) : Change → List Task
  | .insertAll batch => if (table.insertAll batch).1.isOk then batch else []
  | _ => []

def changeAll (table : TaskTable) (changes : List Change) : TaskTable := changes.foldl change table

/-- The tasks that come with the changes, in the order of their arrival. -/
def gainsAll (table : TaskTable) : List Change → List Task
  | [] => []
  | c :: rest => table.gains c ++ (table.change c).gainsAll rest

/-! ## One change -/

structure Tracks (table : TaskTable) (arrived : List Task) (table' : TaskTable) : Prop where
  indexed : table'.Indexed
  idsOf : ∀ o, table'.idsOf o = table.idsOf o ++ (arrived.filter (·.owner = o)).map Task.id

namespace Tracks

theorem refl {table : TaskTable} (h : table.Indexed) : table.Tracks [] table := ⟨h, by simp⟩

theorem arrived {table : TaskTable} (h : table.Indexed) {batch : List Task}
    (hn : (batch.map Task.id).Nodup) (hf : ∀ t ∈ batch, table.get? t.id = none) :
    table.Tracks batch (table.arrived batch) :=
  ⟨(h.foldl_add hn hf).foldl_settle batch, fun _ => idsOf_arrived _⟩

theorem put {table : TaskTable} (h : table.Indexed) {old t : Task}
    (hold : table.get? t.id = some old) (ho : t.owner = old.owner)
    (hd : t.dependencies = old.dependencies) : table.Tracks [] (table.put old t) :=
  ⟨h.put hold ho hd, by simp⟩

theorem settle {table table' : TaskTable} {ts : List Task} (h : table.Tracks ts table') (p : Task) :
    table.Tracks ts (table'.settle p) :=
  ⟨h.indexed.settle p, fun o => by rw [idsOf_settle, h.idsOf]⟩

theorem requeue {table : TaskTable} (h : table.Indexed) (i : TaskId) :
    table.Tracks [] (table.requeue i) := by
  rcases h.requeue_cases i with e | ⟨t, ht, -, -, e⟩ <;> rw [e]
  · exact refl h
  · exact put (t := t.requeue) h ht rfl rfl

theorem start {table : TaskTable} (h : table.Indexed) (i : TaskId) (now : Instant) :
    table.Tracks [] ((table.start? i now).elim table Prod.snd) := by
  rcases h.start?_cases i now with e | ⟨t, ht, -, -, e⟩ <;> rw [e]
  · exact refl h
  · exact put (t := t.start now) h ht rfl rfl

theorem trans {table mid table' : TaskTable} {ts us : List Task} (h : table.Tracks ts mid)
    (h' : mid.Tracks us table') : table.Tracks (ts ++ us) table' :=
  ⟨h'.indexed, fun o =>
    by rw [h'.idsOf, h.idsOf, List.filter_append, List.map_append, List.append_assoc]⟩

end Tracks

theorem tracks_change {table : TaskTable} (h : table.Indexed) (c : Change) :
    table.Tracks (table.gains c) (table.change c) := by
  cases c with
  | insertAll batch =>
    simp only [gains, change]
    rcases table.insertAll_cases batch with ⟨-, fault, hr⟩ | ⟨-, hn, hf, hr⟩ <;> rw [hr]
    · exact .refl h
    · exact .arrived h hn hf
  | replace t =>
    simp only [gains, change]
    rcases table.replace_cases t with ⟨-, fault, hr⟩ | ⟨-, old, hold, ho, hd, hr⟩ <;> rw [hr]
    · exact .refl h
    · exact (Tracks.put h hold ho hd).settle t
  | start id now => exact .start h id now
  | requeue id => exact .requeue h id

/-! ## All changes -/

theorem tracks_changeAll {table : TaskTable} (h : table.Indexed) (changes : List Change) :
    table.Tracks (table.gainsAll changes) (table.changeAll changes) := by
  induction changes generalizing table with
  | nil => exact .refl h
  | cons c rest ih =>
    have hc := tracks_change h c
    exact hc.trans (ih hc.indexed)

/--
Whatever an empty table has gone through, its tasks stand under their identifiers, its queue holds
exactly the pending tasks and lists each of them once, in the order of age and identifier, its lists
of consumers hold each task once for every time that it lists the dependency, and each expression
lists exactly its own tasks, in the order in which the table took them.
-/
theorem indexed_changeAll (changes : List Change) :
    let table := empty.changeAll changes
    (∀ i t, table.get? i = some t → t.id = i) ∧
    (∀ k, k ∈ table.queue ↔
      ∃ t, table.get? k.id = some t ∧ t.status = .pending ∧ (⟨t.createdAt, t.id⟩ : QueueKey) = k) ∧
    (∀ t, t ∈ table.pending ↔ table.get? t.id = some t ∧ t.status = .pending) ∧
    table.pending.Pairwise
      (fun t u => (compare t.createdAt u.createdAt).then (compare t.id u.id) = .lt) ∧
    (∀ i j,
      (table.consumersOf i).count j = ((table.get? j).map fun t => t.dependencies.count i).getD 0) ∧
    ∀ o, table.idsOf o = ((empty.gainsAll changes).filter (·.owner = o)).map Task.id ∧
      (table.idsOf o).Nodup ∧
      (table.ofOwner o).map Task.id = table.idsOf o ∧
      ∀ t, t ∈ table.ofOwner o ↔ table.get? t.id = some t ∧ t.owner = o := by
  intro table
  obtain ⟨h, hids⟩ := tracks_changeAll .empty changes
  exact ⟨fun i t => h.id_eq, fun k => h.mem_queue, fun t => h.mem_pending, h.pairwise_pending,
    h.count_consumers, fun o => ⟨hids o, h.nodup_idsOf o, h.ids_ofOwner o, fun t => h.mem_ofOwner⟩⟩

end Reckoner.TaskTable
