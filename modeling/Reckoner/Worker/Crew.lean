import Reckoner.Worker.Assignment

/-!
# Workers

A worker asks its source for a task, works on it, sends the result, and asks again. Several
workers may share a source; they take turns in any order.
-/

namespace Reckoner

/-- Where workers get their tasks, and where the results go. Both may change its state. -/
structure TaskSource (σ : Type) where
  fetch : σ → Except Fault (Option Assignment) × σ
  send : TaskResult → σ → Except Fault Unit × σ

inductive Worker where
  | idle
  | busy (task : Assignment)
deriving DecidableEq, Repr

/--
An idle worker asks for a task, and stays idle if it gets none. A busy worker sends the result of
its task once, and is idle again whatever the answer.
-/
def Worker.step {σ : Type} (source : TaskSource σ) (w : Worker) (s : σ) : Worker × σ :=
  match w with
  | .idle =>
    match source.fetch s with
    | (.ok (some task), s) => (.busy task, s)
    | (_, s) => (.idle, s)
  | .busy task => (.idle, (source.send task.work s).2)

structure Crew (σ : Type) where
  workers : List Worker
  state : σ

namespace Crew

variable {σ : Type}

def gather (size : Nat) (state : σ) : Crew σ := ⟨List.replicate (max size 1) .idle, state⟩

def size (crew : Crew σ) : Nat := crew.workers.length

def turn (source : TaskSource σ) (crew : Crew σ) (k : Nat) : Crew σ :=
  match crew.workers[k]? with
  | none => crew
  | some w =>
    let (w, s) := w.step source crew.state
    ⟨crew.workers.set k w, s⟩

def run (source : TaskSource σ) (crew : Crew σ) (turns : List Nat) : Crew σ :=
  turns.foldl (turn source) crew

def rounds (source : TaskSource σ) (crew : Crew σ) (n : Nat) : Crew σ :=
  crew.run source (List.replicate n (List.range crew.size)).flatten

end Crew

end Reckoner
