import Reckoner.Evaluation

/-!
# Runs of a coordinator

A run is a list of calls. What comes from outside, the readings of clocks and the fresh identifiers,
is part of the calls, so a run from a given coordinator has one end.
-/

namespace Reckoner

inductive Call where
  /-- `stamp` is for the expression, `stamps` for its tasks in order. -/
  | submit (text : String) (stamp : Stamp) (stamps : Nat → Stamp) (now : Instant)
  | nextTask (asked started : Instant)
  | requeue (now : Instant)
  | report (id : TaskId) (report : Report) (now : Instant)

/--
The identifiers that the call draws: one for an expression and, if its text can be read, one for
each task.
-/
def Call.draws : Call → List Uuid
  | submit text stamp stamps _ =>
    match Formula.parse text with
    | .error _ => [stamp.uuid]
    | .ok f => stamp.uuid :: (List.range f.size).map fun k => (stamps k).uuid
  | _ => []

def Call.submitText (text : String) (n : Nat) : Call :=
  .submit text (Evaluation.stamp n) (fun k => Evaluation.stamp (n + 1 + k)) (Evaluation.clock n)

namespace Coordinator

def after (c : Coordinator) : Call → Coordinator
  | .submit text stamp stamps now => (c.submit text stamp stamps now).2
  | .nextTask asked started => (c.nextTask asked started).2
  | .requeue now => (c.requeueOverdue now).2
  | .report id report now => (c.report id report now).2

def run (c : Coordinator) (calls : List Call) : Coordinator := calls.foldl after c

def handsOut (c : Coordinator) : Call → Option Task
  | .nextTask asked started => (c.nextTask asked started).1
  | _ => none

def handedOut (c : Coordinator) : List Call → List Task
  | [] => []
  | call :: rest => (c.handsOut call).toList ++ (c.after call).handedOut rest

@[simp] theorem handsOut_report (c : Coordinator) (id : TaskId) (r : Report) (now : Instant) :
    c.handsOut (.report id r now) = none := rfl

@[simp] theorem run_nil (c : Coordinator) : c.run [] = c := rfl

theorem run_cons (c : Coordinator) (call : Call) (rest : List Call) :
    c.run (call :: rest) = (c.after call).run rest := rfl

theorem run_append (c : Coordinator) (calls rest : List Call) :
    c.run (calls ++ rest) = (c.run calls).run rest := List.foldl_append

theorem run_snoc (c : Coordinator) (calls : List Call) (call : Call) :
    c.run (calls ++ [call]) = (c.run calls).after call := by
  rw [run_append]; rfl

theorem handedOut_append (rest : List Call) : ∀ (calls : List Call) (c : Coordinator),
    c.handedOut (calls ++ rest) = c.handedOut calls ++ (c.run calls).handedOut rest
  | [], _ => rfl
  | call :: calls, c => by
    rw [List.cons_append, handedOut, handedOut_append rest calls, handedOut, run_cons,
      List.append_assoc]

theorem handedOut_snoc (c : Coordinator) (calls : List Call) (call : Call) :
    c.handedOut (calls ++ [call]) = c.handedOut calls ++ ((c.run calls).handsOut call).toList := by
  rw [handedOut_append]
  simp [handedOut]

@[simp] theorem term_after (c : Coordinator) (call : Call) : (c.after call).term = c.term := by
  cases call with
  | submit text stamp stamps now => rfl
  | nextTask asked started =>
    simp only [after, nextTask]
    split <;> rfl
  | requeue now => rfl
  | report id r now =>
    simp only [after, report]
    repeat' split
    all_goals rfl

@[simp] theorem term_run (c : Coordinator) (calls : List Call) : (c.run calls).term = c.term := by
  induction calls generalizing c with
  | nil => rfl
  | cons call rest ih => rw [run_cons, ih, term_after]

/-! ## The steps of a call -/

section
variable {P : Store → Prop} {c : Coordinator}

/-- What every step of a submission leaves true is true after it, wherever the submission ends. -/
theorem submit_induction {text : String} {stamp : Stamp} {stamps : Nat → Stamp} {now : Instant}
    (file : P (c.store.createExpression text stamp).2)
    (fail : ∀ {s s' e} message, s.modifyExpression ⟨stamp.uuid⟩ (·.fail message now) now =
      .ok (e, s') → P s → P s')
    (save : ∀ {s s' : Store} {batch}, s.saveTasks batch = .ok s' → P s → P s')
    (link : ∀ {s s' e} ids, s.modifyExpression ⟨stamp.uuid⟩ (fun e => { e with taskIds := ids })
      now = .ok (e, s') →
      P s → P s')
    (recompute : ∀ {s s' status}, s.recompute ⟨stamp.uuid⟩ now = .ok (status, s') → P s → P s') :
    P (c.submit text stamp stamps now).2.store := by
  have refused : ∀ message fault,
      P (refuse (c.store.createExpression text stamp).2 ⟨stamp.uuid⟩ message fault now).2 := by
    intro message fault
    unfold refuse
    split
    · exact file
    · rename_i hs
      exact fail message hs file
  have launched : ∀ tasks,
      P (launch (c.store.createExpression text stamp).2 ⟨stamp.uuid⟩ tasks now).2 := by
    intro tasks
    unfold launch
    split
    · exact file
    · rename_i hs₁
      have h₁ := save hs₁ file
      split
      · exact h₁
      · rename_i hs₂
        have h₂ := link _ hs₂ h₁
        split
        · exact h₂
        · rename_i hs₃
          exact recompute hs₃ h₂
  simp only [submit]
  split
  · exact refused ..
  · split
    · exact refused ..
    · exact launched ..

theorem report_induction {i : TaskId} {r : Report} {now : Instant} (start : P c.store)
    (update : ∀ {t s}, c.store.updateTask t = .ok s → P s)
    (recompute : ∀ {t s s' status}, c.store.task i = .ok t →
      s.recompute t.owner now = .ok (status, s') → P s → P s') :
    P (c.report i r now).2.store := by
  unfold report
  split
  · exact start
  · rename_i ht
    split
    · exact start
    · rename_i hs
      split
      · exact update hs
      · rename_i hs'
        exact recompute ht hs' (update hs)

end

end Coordinator

end Reckoner
