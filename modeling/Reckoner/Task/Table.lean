import Reckoner.Task.Basic
import Std.Data.TreeMap
import Std.Data.TreeSet

/-!
# The task table

Tasks by identifier, with three indexes over them: the consumers of each task's result, the tasks
of each expression in the order of their arrival, and the queue of pending tasks. Completing a
task writes its result into the slots of its consumers at once, so a task can be handed out
without looking for its operands.
-/

namespace Reckoner

/-- A place in the queue: older tasks first, tasks of one age by identifier. -/
structure QueueKey where
  createdAt : Instant
  id : TaskId
deriving DecidableEq, Repr

namespace QueueKey

def order : QueueKey → QueueKey → Ordering := compareLex (compareOn createdAt) (compareOn id)

instance : Ord QueueKey := ⟨order⟩

instance : Std.TransOrd QueueKey :=
  inferInstanceAs (Std.TransCmp (compareLex (compareOn createdAt) (compareOn id)))

theorem eq_of_order {a b : QueueKey} (h : order a b = .eq) : a = b := by
  simp only [order, compareLex, compareOn, Ordering.then_eq_eq, Std.compare_eq_iff_eq] at h
  cases a; cases b; simp_all

instance : Std.LawfulEqOrd QueueKey where
  eq_of_compare h := eq_of_order h

end QueueKey

def Task.queueKey (t : Task) : QueueKey := ⟨t.createdAt, t.id⟩

structure TaskTable where
  tasks : Std.TreeMap TaskId Task
  /-- The consumers of each task, one for every time that they list it. -/
  consumers : Std.TreeMap TaskId (List TaskId)
  /-- The tasks of each expression, in the order of their arrival. -/
  byOwner : Std.TreeMap ExpressionId (List TaskId)
  queue : Std.TreeSet QueueKey

namespace TaskTable

def empty : TaskTable := ⟨∅, ∅, ∅, ∅⟩

/-! ## Reading -/

def get? (table : TaskTable) (id : TaskId) : Option Task := table.tasks[id]?

def size (table : TaskTable) : Nat := table.tasks.size

def pendingCount (table : TaskTable) : Nat := table.queue.size

def pending (table : TaskTable) : List Task :=
  table.queue.toList.filterMap fun key => table.get? key.id

def processing (table : TaskTable) : List Task :=
  table.tasks.values.filter fun t => t.status == .processing

def ofOwner (table : TaskTable) (id : ExpressionId) : List Task :=
  (table.byOwner.getD id []).filterMap table.get?

def consumersOf (table : TaskTable) (id : TaskId) : List TaskId := table.consumers.getD id []

/-! ## Single steps -/

def append {α β : Type} [Ord α] (map : Std.TreeMap α (List β)) (key : α) (value : β) :
    Std.TreeMap α (List β) :=
  map.alter key fun values => some (values.getD [] ++ [value])

def add (table : TaskTable) (t : Task) : TaskTable where
  tasks := table.tasks.insert t.id t
  consumers := t.dependencies.foldl (fun map dependency => append map dependency t.id)
    table.consumers
  byOwner := append table.byOwner t.owner t.id
  queue := if t.status = .pending then table.queue.insert t.queueKey else table.queue

def propagate (table : TaskTable) (id : TaskId) (result : Float) : TaskTable :=
  { table with
    tasks := (table.consumersOf id).foldl (fun tasks consumer =>
      tasks.modify consumer (·.resolve id result))
      table.tasks }

/-- Writes a task's result, if it is completed, into the slots of its consumers. -/
def settle (table : TaskTable) (t : Task) : TaskTable :=
  match t.completedResult with
  | none => table
  | some result => table.propagate t.id result

/-! ## Changes -/

def firstClash? (table : TaskTable) (seen : Std.TreeSet TaskId) : List Task → Option TaskId
  | [] => none
  | t :: rest =>
    if table.tasks.contains t.id || seen.contains t.id then some t.id
    else firstClash? table (seen.insert t.id) rest

/--
Adds a batch of new tasks, all or none; then fills the slots for results that the batch brings.
-/
def insertAll (table : TaskTable) (batch : List Task) : Except Fault Unit × TaskTable :=
  match table.firstClash? ∅ batch with
  | some id => (.error (.invalid (.storedTask id)), table)
  | none => (.ok (), batch.foldl settle (batch.foldl add table))

/-- Puts a new version of a stored task in its place. Owner and dependencies have to stay. -/
def replace (table : TaskTable) (t : Task) : Except Fault Unit × TaskTable :=
  match table.get? t.id with
  | none => (.error (.taskNotFound t.id), table)
  | some old =>
    if old.owner ≠ t.owner ∨ old.dependencies ≠ t.dependencies then
      (.error (.invalid (.rewiredTask t.id)), table)
    else
      let queue := if old.status = .pending then table.queue.erase old.queueKey else table.queue
      let queue := if t.status = .pending then queue.insert t.queueKey else queue
      (.ok (),
        ({ table with tasks := table.tasks.insert t.id t, queue := queue } : TaskTable).settle t)

def start? (table : TaskTable) (id : TaskId) (now : Instant) : Option (Task × TaskTable) :=
  match table.get? id with
  | none => none
  | some t =>
    if t.status = .pending then
      some (t.start now,
        { table with
          tasks := table.tasks.insert id (t.start now), queue := table.queue.erase t.queueKey })
    else none

/-- Takes a task back from its worker; the table stays as it is if no worker has the task. -/
def requeue (table : TaskTable) (id : TaskId) : TaskTable :=
  match table.get? id with
  | none => table
  | some t =>
    if t.status = .processing then
      { table with
        tasks := table.tasks.insert id t.requeue, queue := table.queue.insert t.queueKey }
    else table

end TaskTable

end Reckoner
