import Reckoner.Worker.Local

/-!
# Evaluation of one formula

A formula is worked out from its tree, or by local workers through a coordinator of its own.
-/

namespace Reckoner.Evaluation

def direct (text : String) : Except Fault Float :=
  match Formula.parse text with
  | .error cause => .error (.invalid (.stated cause.message))
  | .ok f => f.eval

/-! ## Local workers

Identifiers and times only need to differ, so both are counted. -/

def clock (n : Nat) : Instant := .ofMillis n

def stamp (n : Nat) : Stamp := ⟨⟨BitVec.ofNat 128 n⟩, clock n⟩

/-- The longest time that a task at hand takes, in milliseconds. -/
def pause {σ : Type} (crew : Crew σ) : Nat :=
  crew.workers.foldl (fun longest w =>
    match w with
    | .idle => longest
    | .busy task => max longest task.duration.toNat) 0

/-- Lets every worker take `n` steps, and adds up the time from step to step. -/
def work {σ : Type} (source : TaskSource σ) : (n : Nat) → Crew σ → (elapsed : Nat) → Crew σ × Nat
  | 0, crew, elapsed => (crew, elapsed)
  | n + 1, crew, elapsed =>
    let crew := crew.rounds source 1
    work source n crew (elapsed + pause crew)

inductive Ending where
  | value (x : Float)
  | failure (message : String)
  | fault (cause : Fault)
deriving DecidableEq, Repr

def Ending.ofExpression (e : Expression) : Ending :=
  match e.status with
  | .completed => .value (e.result.getD 0.0)
  | _ => .failure (e.error.getD "evaluation failed")

/--
The end of the evaluation by so many workers, and how many milliseconds it took. Every task is
handed out once and reported once, and no step of all workers before the end is without either, so
twice as many steps as there are tasks suffice. More workers than tasks make no difference.
-/
def distributed (times : OperationTimes) (workers : Nat) (text : String) : Ending × Nat :=
  match (Coordinator.initial times none).submit text (stamp 0) (fun k => stamp (k + 1))
    (clock 0) with
  | (.error (.rejected _ cause), _) => (.failure cause.message, 0)
  | (.error cause, _) => (.fault cause, 0)
  | (.ok id, c) =>
    let tasks := c.store.tasks.size
    let crew := Crew.gather (min workers tasks) (⟨c, tasks + 1⟩ : Coordinator.Clocked)
    let (crew, elapsed) := work (Coordinator.source clock) (2 * tasks) crew 0
    match crew.state.coordinator.store.expression id with
    | .error cause => (.fault cause, elapsed)
    | .ok e => (.ofExpression e, elapsed)

end Reckoner.Evaluation
