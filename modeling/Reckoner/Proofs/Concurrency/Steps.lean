import Reckoner.Proofs.Coordinator.Run
import Reckoner.Proofs.Expression

/-!
# Calls that take turns

Many callers share a coordinator. What a call does with the store at one go is one step, between two
steps anybody may take theirs, and a call goes on with what it has read, which may be out of date by
then. To recompute an expression takes two steps, and meanwhile nobody else may write expressions.
-/

namespace Reckoner

inductive Answer where
  | submitted (answer : Except Fault ExpressionId)
  | handedOut (task : Option Task)
  | takenBack (ids : List TaskId)
  | reported (answer : Except Fault Expression)

inductive Asker where
  | submission
  | report
deriving DecidableEq, Repr

/-- The next step of a call, with what the call has read so far. -/
inductive Stage where
  | create (text : String) (stamp : Stamp) (stamps : Nat → Stamp) (now : Instant)
  | refuse (id : ExpressionId) (message : String) (fault : Fault) (now : Instant)
  | save (id : ExpressionId) (tasks : List Task) (now : Instant)
  | link (id : ExpressionId) (ids : List TaskId) (now : Instant)
  | takeBack (asked started : Instant)
  | handOut (started : Instant)
  | requeue (now : Instant)
  | fetch (id : TaskId) (report : Report) (now : Instant)
  | update (t : Task) (now : Instant)
  | inspect (id : ExpressionId) (asker : Asker) (now : Instant)
  | conclude (id : ExpressionId) (e : Expression) (tasks : List Task) (asker : Asker)
    (now : Instant)
  | look (id : ExpressionId)
  | done (answer : Answer)

namespace Asker

def failed (asker : Asker) (fault : Fault) : Stage :=
  match asker with
  | submission => .done (.submitted (.error fault))
  | report => .done (.reported (.error fault))

def next (asker : Asker) (id : ExpressionId) : Stage :=
  match asker with
  | submission => .done (.submitted (.ok id))
  | report => .look id

end Asker

namespace Stage

def ofCall : Call → Stage
  | .submit text stamp stamps now => create text stamp stamps now
  | .nextTask asked started => takeBack asked started
  | .requeue now => requeue now
  | .report id report now => fetch id report now

def isIdle : Stage → Bool
  | create .. | takeBack .. | requeue .. | fetch .. | done _ => true
  | _ => false

/-! ## Expressions are written by one at a time -/

def holdsLock : Stage → Bool
  | conclude .. => true
  | _ => false

def needsLock : Stage → Bool
  | create .. | refuse .. | link .. | inspect .. => true
  | _ => false

/-! ## One step -/

def createStep (c : Coordinator) (text : String) (stamp : Stamp) (stamps : Nat → Stamp)
    (now : Instant) : Stage × Store :=
  let (e, s) := c.store.createExpression text stamp
  match Formula.parse text with
  | .error cause => (refuse e.id cause.message (.rejected e.id cause) now, s)
  | .ok f =>
    let tasks := f.plan c.times e.id stamps
    match Coordinator.checkShape tasks with
    | .error fault => (refuse e.id fault.message fault now, s)
    | .ok () => (save e.id tasks now, s)

def inspectStep (s : Store) (id : ExpressionId) (asker : Asker) (now : Instant) : Stage :=
  match s.expression id with
  | .error fault => asker.failed fault
  | .ok e => if e.status.isTerminal then asker.next id else conclude id e (s.tasksOf id) asker now

def concludeStep (s : Store) (id : ExpressionId) (e : Expression) (tasks : List Task)
    (asker : Asker) (now : Instant) : Stage × Store :=
  match Outcome.ofTasks tasks with
  | .error fault => (asker.failed fault, s)
  | .ok o => (asker.next id, { s with expressions := s.expressions.insert id (e.recomputed o now) })

def step (c : Coordinator) : Stage → Stage × Store
  | create text stamp stamps now => createStep c text stamp stamps now
  | refuse id message fault now =>
    match c.store.modifyExpression id (fun e => e.fail message now) now with
    | .error e => (done (.submitted (.error e)), c.store)
    | .ok (_, s) => (done (.submitted (.error fault)), s)
  | save id tasks now =>
    match c.store.saveTasks tasks with
    | .error e => (done (.submitted (.error e)), c.store)
    | .ok s => (link id (tasks.map Task.id) now, s)
  | link id ids now =>
    match c.store.modifyExpression id (fun e => { e with taskIds := ids }) now with
    | .error e => (done (.submitted (.error e)), c.store)
    | .ok (_, s) => (inspect id .submission now, s)
  | takeBack asked started => (handOut started, (c.requeueOverdue asked).2.store)
  | handOut started =>
    match c.store.tasks.dispatch? started with
    | none => (done (.handedOut none), c.store)
    | some (t, tasks) => (done (.handedOut (some t)), { c.store with tasks })
  | requeue now => (done (.takenBack (c.requeueOverdue now).1), (c.requeueOverdue now).2.store)
  | fetch id report now =>
    match c.store.task id with
    | .error e => (done (.reported (.error e)), c.store)
    | .ok t => (update (report.apply t now) now, c.store)
  | update t now =>
    match c.store.updateTask t with
    | .error e => (done (.reported (.error e)), c.store)
    | .ok s => (inspect t.owner .report now, s)
  | inspect id asker now => (inspectStep c.store id asker now, c.store)
  | conclude id e tasks asker now => concludeStep c.store id e tasks asker now
  | look id => (done (.reported (c.store.expression id)), c.store)
  | done answer => (done answer, c.store)

end Stage

/-! ## Schedules -/

structure World where
  coordinator : Coordinator
  stages : List Stage

namespace World

def start (c : Coordinator) (calls : List Call) : World := ⟨c, calls.map Stage.ofCall⟩

def store (w : World) : Store := w.coordinator.store

/-- The `n`-th call takes a step, unless it has to wait for the writer of an expression. -/
def step (w : World) (n : Nat) : World :=
  match w.stages[n]? with
  | none => w
  | some stage =>
    if stage.needsLock && w.stages.any Stage.holdsLock then w
    else
      let (next, store) := stage.step w.coordinator
      ⟨{ w.coordinator with store }, w.stages.set n next⟩

def run (w : World) (schedule : List Nat) : World := schedule.foldl step w

def AtRest (w : World) : Prop := ∀ stage ∈ w.stages, stage.isIdle = true

end World

/-! ## Calls one after the other -/

namespace Coordinator

def answer (c : Coordinator) : Call → Answer
  | .submit text stamp stamps now => .submitted (c.submit text stamp stamps now).1
  | .nextTask asked started => .handedOut (c.nextTask asked started).1
  | .requeue now => .takenBack (c.requeueOverdue now).1
  | .report id report now => .reported (c.report id report now).1

def answers (c : Coordinator) : List Call → List Answer
  | [] => []
  | call :: rest => c.answer call :: (c.after call).answers rest

end Coordinator

namespace Stage

def steps (c : Coordinator) (stage : Stage) : Nat → Stage × Coordinator
  | 0 => (stage, c)
  | n + 1 => steps { c with store := (stage.step c).2 } (stage.step c).1 n

@[simp] theorem steps_done (c : Coordinator) (answer : Answer) (n : Nat) :
    (done answer).steps c n = (done answer, c) := by
  induction n with
  | zero => rfl
  | succ n ih => exact ih

def left : Asker → Nat
  | .submission => 2
  | .report => 3

def answered (s : Store) (id : ExpressionId) : Asker → Stage
  | .submission => done (.submitted (.ok id))
  | .report => done (.reported (s.expression id))

theorem steps_succ (c : Coordinator) (stage : Stage) (n : Nat) :
    stage.steps c (n + 1) = (stage.step c).1.steps { c with store := (stage.step c).2 } n := rfl

theorem steps_inspect (c : Coordinator) (id : ExpressionId) (asker : Asker) (now : Instant) :
    (inspect id asker now).steps c (left asker) =
      match c.store.recompute id now with
      | .error fault => (asker.failed fault, c)
      | .ok (_, s) => (answered s id asker, { c with store := s }) := by
  cases he : c.store.expression id with
  | error fault =>
    have hr : c.store.recompute id now = .error fault := by
      simp only [Store.recompute, he, bind, Except.bind]
    rw [hr]
    cases asker <;> simp [left, steps, step, inspectStep, he, Asker.failed]
  | ok e =>
    by_cases ht : e.status.isTerminal = true
    · have hr : c.store.recompute id now = .ok (e.status, c.store) := by
        simp only [Store.recompute, he, bind, Except.bind, if_pos ht]
        rfl
      rw [hr]
      cases asker <;> simp [left, steps, step, inspectStep, he, ht, Asker.next, answered]
    · cases ho : Outcome.ofTasks (c.store.tasksOf id) with
      | error fault =>
        have hr : c.store.recompute id now = .error fault := by
          simp only [Store.recompute, he, bind, Except.bind, if_neg ht, ho]
        rw [hr]
        cases asker <;>
          simp [left, steps, step, inspectStep, concludeStep, he, ht, ho, Asker.failed]
      | ok o =>
        have hr : c.store.recompute id now = .ok ((e.recomputed o now).status,
            { c.store with
              expressions := c.store.expressions.insert id (e.recomputed o now) }) := by
          simp only [Store.recompute, he, bind, Except.bind, if_neg ht, ho, Expression.recomputed]
          cases o <;> rfl
        rw [hr]
        cases asker <;>
          simp [left, steps, step, inspectStep, concludeStep, he, ht, ho, Asker.next, answered]

theorem steps_refuse (c : Coordinator) (id : ExpressionId) (message : String) (fault : Fault)
    (now : Instant) (n : Nat) : (refuse id message fault now).steps c (n + 1) =
      (done (.submitted (Coordinator.refuse c.store id message fault now).1),
        { c with store := (Coordinator.refuse c.store id message fault now).2 }) := by
  rw [steps_succ]
  simp only [step, Coordinator.refuse]
  cases c.store.modifyExpression id (fun e => e.fail message now) now with
  | error fault => simp
  | ok out => simp

theorem steps_save (c : Coordinator) (id : ExpressionId) (tasks : List Task) (now : Instant) :
    (save id tasks now).steps c 4 =
      (done (.submitted (Coordinator.launch c.store id tasks now).1),
        { c with store := (Coordinator.launch c.store id tasks now).2 }) := by
  rw [steps_succ]
  simp only [step, Coordinator.launch]
  cases c.store.saveTasks tasks with
  | error fault => simp
  | ok s =>
    rw [steps_succ]
    simp only [step]
    cases s.modifyExpression id (fun e => { e with taskIds := tasks.map Task.id }) now with
    | error fault => simp
    | ok out =>
      obtain ⟨-, s⟩ := out
      refine (steps_inspect _ id .submission now).trans ?_
      dsimp only
      cases s.recompute id now with
      | error fault => rfl
      | ok out => rfl

/--
Left alone, a call is done in five steps, and has done what the coordinator does with it at one go.
-/
theorem steps_ofCall (c : Coordinator) (call : Call) :
    (ofCall call).steps c 5 = (done (c.answer call), c.after call) := by
  cases call with
  | submit text stamp stamps now =>
    rw [ofCall, steps_succ]
    simp only [Coordinator.answer, Coordinator.after, Coordinator.submit, step, createStep]
    cases Formula.parse text with
    | error cause => exact steps_refuse _ _ _ _ _ 3
    | ok f =>
      dsimp only
      cases Coordinator.checkShape
        (f.plan c.times (c.store.createExpression text stamp).1.id stamps) with
      | error fault => exact steps_refuse _ _ _ _ _ 3
      | ok _ => exact steps_save _ _ _ _
  | nextTask asked started =>
    rw [ofCall, steps_succ, steps_succ]
    simp only [step, Coordinator.answer, Coordinator.after, Coordinator.nextTask]
    cases (c.requeueOverdue asked).2.store.tasks.dispatch? started with
    | none => simp [Coordinator.requeueOverdue]
    | some out => simp [Coordinator.requeueOverdue]
  | requeue now => rfl
  | report id report now =>
    rw [ofCall, steps_succ]
    simp only [step, Coordinator.answer, Coordinator.after, Coordinator.report]
    cases c.store.task id with
    | error fault => simp
    | ok t =>
      rw [steps_succ]
      simp only [step]
      cases c.store.updateTask (report.apply t now) with
      | error fault => simp
      | ok s =>
        have howner : (report.apply t now).owner = t.owner := by cases report <;> rfl
        refine (steps_inspect _ _ .report now).trans ?_
        rw [howner]
        dsimp only
        cases s.recompute t.owner now with
        | error fault => rfl
        | ok out => rfl

end Stage

namespace World

theorem run_append (w : World) (schedule more : List Nat) :
    w.run (schedule ++ more) = (w.run schedule).run more :=
  List.foldl_append

theorem step_eq {w : World} {n : Nat} {stage : Stage} (hstage : w.stages[n]? = some stage)
    (hfree : stage.needsLock = true → ∀ other ∈ w.stages, other.holdsLock = false) :
    w.step n = ⟨{ w.coordinator with store := (stage.step w.coordinator).2 },
      w.stages.set n (stage.step w.coordinator).1⟩ := by
  have hopen : (stage.needsLock && w.stages.any Stage.holdsLock) = false := by
    cases hneeds : stage.needsLock with
    | false => rfl
    | true => simpa using hfree hneeds
  simp only [step, hstage, hopen, Bool.false_eq_true, if_false]

/--
While the others wait and none of them is writing an expression, a call goes on as if it were alone.
-/
theorem run_replicate {before after : List Stage}
    (hlock : ∀ other ∈ before ++ after, other.holdsLock = false) (k : Nat) :
    ∀ (c : Coordinator) (stage : Stage),
      (⟨c, before ++ stage :: after⟩ : World).run (List.replicate k before.length) =
        ⟨(stage.steps c k).2, before ++ (stage.steps c k).1 :: after⟩ := by
  induction k with
  | zero => exact fun _ _ => rfl
  | succ k ih =>
    intro c stage
    have hstep : (⟨c, before ++ stage :: after⟩ : World).step before.length =
        ⟨{ c with store := (stage.step c).2 }, before ++ (stage.step c).1 :: after⟩ := by
      have hstage : (⟨c, before ++ stage :: after⟩ : World).stages[before.length]? =
          some stage := by simp
      refine (step_eq hstage fun hneeds other hm => ?_).trans (by simp)
      rcases List.mem_append.1 hm with hm | hm
      · exact hlock other (List.mem_append_left _ hm)
      · rcases List.mem_cons.1 hm with rfl | hm
        · -- a call that waits for the lock does not have it
          cases other <;> first | rfl | cases hneeds
        · exact hlock other (List.mem_append_right _ hm)
    rw [List.replicate_succ, run, List.foldl_cons, hstep, Stage.steps_succ]
    exact ih _ _

/-- Calls that do not overlap make a run of the coordinator. -/
theorem run_oneByOne (calls : List Call) : ∀ (c : Coordinator) (answers : List Answer),
    (⟨c, answers.map .done ++ calls.map .ofCall⟩ : World).run
        ((List.range' answers.length calls.length).flatMap (List.replicate 5)) =
      ⟨c.run calls, (answers ++ c.answers calls).map .done⟩ := by
  induction calls with
  | nil => intro c answers; simp [run, Coordinator.answers]
  | cons call rest ih =>
    intro c answers
    have hlock : ∀ other ∈ answers.map Stage.done ++ rest.map Stage.ofCall,
        other.holdsLock = false := by
      intro other hm
      rcases List.mem_append.1 hm with hm | hm
      · obtain ⟨_, -, rfl⟩ := List.mem_map.1 hm
        rfl
      · obtain ⟨call, -, rfl⟩ := List.mem_map.1 hm
        cases call <;> rfl
    have hfirst := run_replicate hlock 5 c (.ofCall call)
    rw [Stage.steps_ofCall, List.length_map] at hfirst
    have hrest := ih (c.after call) (answers ++ [c.answer call])
    rw [List.length_cons, List.range'_succ, List.flatMap_cons, run_append, List.map_cons, hfirst]
    simpa [Coordinator.answers, Coordinator.run_cons] using hrest

end World

end Reckoner
