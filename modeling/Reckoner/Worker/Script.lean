import Reckoner.Worker.Crew

/-!
# Scripted sources

A source that plays a list of answers, keeps the results it is sent, and refuses some of them.
-/

namespace Reckoner

inductive Reply where
  | nothing
  | fault (cause : Fault)
  | task (assignment : Assignment)
deriving DecidableEq, Repr

structure Script where
  replies : List Reply
  received : List TaskResult

namespace Script

/-- Plays the next answer; there are no tasks once all have been played. -/
def fetch (s : Script) : Except Fault (Option Assignment) × Script :=
  match s.replies with
  | [] => (.ok none, s)
  | .nothing :: rest => (.ok none, { s with replies := rest })
  | .fault cause :: rest => (.error cause, { s with replies := rest })
  | .task assignment :: rest => (.ok (some assignment), { s with replies := rest })

def send (refused : List TaskId) (result : TaskResult) (s : Script) : Except Fault Unit × Script :=
  (if refused.contains result.id then .error (.taskNotFound result.id) else .ok (),
    { s with received := result :: s.received })

def source (refused : List TaskId) : TaskSource Script := ⟨fetch, send refused⟩

def play (replies : List Reply) (refused : List TaskId) (workers : Nat) : Crew Script :=
  (Crew.gather workers ⟨replies, []⟩).rounds (source refused) (2 * replies.length)

end Script

end Reckoner
