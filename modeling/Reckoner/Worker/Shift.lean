import Reckoner.Worker.Crew

/-!
# Shifts

The loop of a worker with its pauses, and the call to stop. A worker rests when it has got no task,
and stays with a task for as long as the operation is made to take. The call to stop cuts these
pauses short; a task that is being worked on is dropped then. A question that has been asked is
heard, and a result that has been found is sent.
-/

namespace Reckoner

namespace Shift

/-- Where a worker stands in its loop. -/
inductive Phase where
  /-- At the head of the loop, where it stops if it has been told to, and asks otherwise. -/
  | ready
  | resting
  | working (task : Assignment)
  | reporting (result : TaskResult)
  /-- Out of the loop, with the task that it dropped if there was one. -/
  | ended (dropped : Option Assignment)
deriving DecidableEq, Repr

/-- Whether a pause comes to its end. Without the call to stop it always does, with it it may. -/
def lasts (stopping cut : Bool) : Bool := !(stopping && cut)

def Phase.step {σ : Type} (source : TaskSource σ) (stopping cut : Bool) (p : Phase) (s : σ) :
    Phase × σ :=
  match p with
  | .ready =>
    if stopping then (.ended none, s)
    else
      match source.fetch s with
      | (.ok (some task), s) => (.working task, s)
      | (_, s) => (.resting, s)
  | .resting => (if lasts stopping cut then .ready else .ended none, s)
  | .working task => (if lasts stopping cut then .reporting task.work else .ended (some task), s)
  | .reporting result => (.ready, (source.send result s).2)
  | .ended dropped => (.ended dropped, s)

inductive Event where
  /--
  A worker takes a step. If it pauses, `cut` says whether a call to stop comes before the end of the
  pause.
  -/
  | step (worker : Nat) (cut : Bool)
  | stop
deriving DecidableEq, Repr

end Shift

structure Shift (σ : Type) where
  phases : List Shift.Phase
  stopping : Bool
  state : σ

namespace Shift

variable {σ : Type}

def gather (size : Nat) (state : σ) : Shift σ := ⟨List.replicate (max size 1) .ready, false, state⟩

def after (source : TaskSource σ) (shift : Shift σ) : Event → Shift σ
  | .stop => { shift with stopping := true }
  | .step k cut =>
    match shift.phases[k]? with
    | none => shift
    | some p =>
      let (p, s) := p.step source shift.stopping cut shift.state
      { shift with phases := shift.phases.set k p, state := s }

def run (source : TaskSource σ) (shift : Shift σ) (events : List Event) : Shift σ :=
  events.foldl (after source) shift

end Shift

end Reckoner
