import Reckoner.Proofs.Http.StatusCodes
import Reckoner.Proofs.Lease
import Reckoner.Proofs.Task.Bookkeeping

/-!
# Delivery

Without a lease a task that has been handed out never comes back, so the answer has to bring it to
the worker. Of all requests only those for a task take one. The answer to a `GET` holds the task; a
`HEAD` takes it too, and its answer leaves it out.
-/

namespace Reckoner

namespace Coordinator

/--
Without a lease no call but the one for the next task puts a waiting task into the hands of a
worker.
-/
theorem eq_nextTask_of_started {c : Coordinator} (h : c.store.tasks.Indexed) (hl : c.term = none)
    {call : Call} {i : TaskId} {t u : Task} (ht : c.store.tasks.get? i = some t)
    (hp : t.status = .pending) (hu : (c.after call).store.tasks.get? i = some u)
    (hs : u.status = .processing) : ∃ asked started, call = .nextTask asked started := by
  -- the other calls leave the task with its status, or finish it
  have hmoved : ((c.after call).store.tasks.get? i).map Task.custody ≠ some t.custody := by
    rw [hu, Option.map_some]
    intro hc
    have hstatus : u.status = t.status := congrArg Prod.fst (Option.some.inj hc)
    rw [hs, hp] at hstatus
    cases hstatus
  cases call with
  | nextTask asked started => exact ⟨asked, started, rfl⟩
  | submit text stamp stamps now => exact (hmoved (custody_submit text stamp stamps now ht)).elim
  | requeue now =>
    refine (hmoved ?_).elim
    rw [show c.after (.requeue now) = c from requeueOverdue_of_no_lease hl now, ht, Option.map_some]
  | report j r now =>
    by_cases hj : j = i
    · subst hj
      obtain ⟨v, hv, hf⟩ := isFinished_report h ht r now
      cases hu.symm.trans hv
      rcases Task.isFinished_iff.1 hf with e | e <;> cases hs.symm.trans e
    · refine (hmoved ?_).elim
      exact (custody_report h hj r now).trans (by rw [ht, Option.map_some])

/--
A call that puts a waiting task into the hands of a worker hands it out, and touches no other task.
-/
theorem nextTask_of_started {c : Coordinator} (h : c.store.tasks.Indexed) (hl : c.term = none)
    {call : Call} {i : TaskId} {t u : Task} (ht : c.store.tasks.get? i = some t)
    (hp : t.status = .pending) (hu : (c.after call).store.tasks.get? i = some u)
    (hs : u.status = .processing) :
    ∃ asked started, call = .nextTask asked started ∧ u = t.start started ∧
      c.nextTask asked started =
        (some u, { c with store := { c.store with tasks := c.store.tasks.put t u } }) := by
  obtain ⟨asked, started, rfl⟩ := eq_nextTask_of_started h hl ht hp hu hs
  have hstate : c.after (.nextTask asked started) = (c.nextTask asked started).2 := rfl
  have hne : u ≠ t := by
    rintro rfl
    cases hp.symm.trans hs
  rcases nextTask_spec (requeueOverdue_of_no_lease hl asked) h started with ⟨hnext, -⟩ |
    ⟨v, hv, -, -, hnext⟩
  · rw [hstate, hnext, ht] at hu
    exact (hne (Option.some.inj hu).symm).elim
  · rw [hstate, hnext, TaskTable.get?_put] at hu
    split at hu
    · rename_i hi
      have hvt : v = t := Option.some.inj (hv.symm.trans ((congrArg _ hi).trans ht))
      rw [hvt] at hu hnext
      cases hu
      exact ⟨asked, started, rfl, rfl, hnext⟩
    · rw [ht] at hu
      exact (hne (Option.some.inj hu).symm).elim

end Coordinator

namespace Http

variable {c : Coordinator} {r : Request} {s : Supply}

theorem call?_eq_nextTask {asked started : Instant}
    (h : call? r s = some (.nextTask asked started)) :
    Route.ofTarget? r.target = some .task ∧ (r.method = .get ∨ r.method = .head) ∧
      asked = s.asked ∧ started = s.now := by
  unfold call? at h
  split at h
  · obtain ⟨m, -, hm⟩ := Option.bind_eq_some_iff.1 h
    split at hm <;> cases hm
  · obtain ⟨m, -, hm⟩ := Option.bind_eq_some_iff.1 h
    obtain ⟨report, -, hreport⟩ := Option.map_eq_some_iff.1 hm
    cases hreport
  · rename_i hr hm
    cases h
    exact ⟨hr, .inl hm, rfl, rfl⟩
  · rename_i hr hm
    cases h
    exact ⟨hr, .inr hm, rfl, rfl⟩
  · cases h

theorem assign_of_nextTask {t : Task} {c' : Coordinator}
    (h : c.nextTask s.asked s.now = (some t, c')) :
    assign c s = (.json 200 (AssignmentReply.mk (some (Assignment.ofTask t))), c') := by
  have hfetch : c.fetch s.asked s.now = (some (Assignment.ofTask t), c') := by
    rw [Coordinator.fetch, h]
    rfl
  rw [assign, hfetch]

/--
Without a lease, a request after which a waiting task is in the hands of a worker has touched that
task alone, and has been answered with success. The answer to a `GET` is the assignment of the task.
No other request does this but a `HEAD`, and the answer to it is empty: the task is gone, and nobody
has it.
-/
theorem respond_handing_out (times : OperationTimes)
    (expressions : Std.TreeMap ExpressionId Expression) (changes : List TaskTable.Change)
    (r : Request) (s : Supply) :
    let c : Coordinator := ⟨times, none, ⟨expressions, .changeAll .empty changes⟩⟩
    let out := respond c r s
    ∀ i t u, c.store.tasks.get? i = some t → t.status = .pending →
      out.2.store.tasks.get? i = some u → u.status = .processing →
      u = { t with status := .processing, startedAt := some s.now } ∧
      (∀ j, j ≠ i → out.2.store.tasks.get? j = c.store.tasks.get? j) ∧ out.1.status = 200 ∧
      (r.method = .get ∧ out.1.body = Wire.write (AssignmentReply.mk (some (Assignment.ofTask u))) ∨
        r.method = .head ∧ out.1.body = "") := by
  intro c out i t u ht hp hu hs
  have h : c.store.tasks.Indexed := (TaskTable.tracks_changeAll .empty changes).indexed
  have hstate : out.2 = c.run (call? r s).toList := respond_state c r s
  cases hcall : call? r s with
  | none =>
    rw [hstate, hcall] at hu
    cases ht.symm.trans hu
    rw [hp] at hs
    cases hs
  | some call =>
    rw [hcall, Option.toList_some] at hstate
    have hafter : (c.after call).store.tasks.get? i = some u := by
      rwa [hstate] at hu
    obtain ⟨asked, started, rfl, hstart, hnext⟩ :=
      Coordinator.nextTask_of_started h rfl ht hp hafter hs
    obtain ⟨hroute, hmethod, rfl, rfl⟩ := call?_eq_nextTask hcall
    have hassign := assign_of_nextTask hnext
    have htable : out.2.store.tasks = c.store.tasks.put t u := by
      rw [hstate]
      exact congrArg (fun out => out.2.store.tasks) hnext
    refine ⟨hstart, fun j hj => ?_, ?_⟩
    · have hid : u.id = i := by
        rw [hstart]
        exact (h.id_eq ht :)
      rw [htable, TaskTable.get?_put, if_neg (hid ▸ hj.symm)]
    · rcases hmethod with hm | hm
      · have hout : out = assign c s := by
          simp only [out, respond, hroute, hm, answer]
        rw [hout, hassign]
        exact ⟨rfl, .inl ⟨hm, rfl⟩⟩
      · have hout : out = ((assign c s).1.withoutBody, (assign c s).2) := by
          simp only [out, respond, hroute, hm, answer]
        rw [hout, hassign]
        exact ⟨rfl, .inr ⟨hm, rfl⟩⟩

/-- A sum goes out to a `GET` with its operands. -/
theorem respond_handing_out_to_get :
    let one := Task.literal (Id.ofNat 9) 1.0 (Evaluation.stamp 1)
    let sum := Task.composite (Id.ofNat 9) .addition one one 0 (Evaluation.stamp 2)
    let c : Coordinator := ⟨.instant, none, ⟨∅, .changeAll .empty [.insertAll [one, sum]]⟩⟩
    ∃ u, (respond c .forTask laterSupply).2.store.tasks.get? sum.id = some u ∧
      u.status = .processing ∧
      (respond c .forTask laterSupply).1.body =
        Wire.write (AssignmentReply.mk (some (Assignment.ofTask u))) := by
  intro one sum c
  have hbefore : c.store.tasks.get? sum.id = some sum := by decide
  have hafter : (respond c .forTask laterSupply).2.store.tasks.get? sum.id =
      some (sum.start laterSupply.now) := by decide
  obtain ⟨-, -, -, hbody⟩ := respond_handing_out .instant ∅ [.insertAll [one, sum]] .forTask
    laterSupply
    sum.id sum _ hbefore rfl hafter rfl
  refine ⟨_, hafter, rfl, ?_⟩
  rcases hbody with ⟨-, hbody⟩ | ⟨hm, -⟩
  · exact hbody
  · cases hm

/--
A `HEAD` takes the only task there is, and its answer is empty. Whoever asks after that is told that
there is none.
-/
theorem head_takes_unseen :
    let c := (Coordinator.initial .instant none).run [.submitText "1+2" 0]
    let out := respond c { Request.forTask with method := .head } laterSupply
    (∃ t u, c.store.tasks.get? (Id.ofNat 3) = some t ∧ t.status = .pending ∧
      out.2.store.tasks.get? (Id.ofNat 3) = some u ∧ u.status = .processing ∧
      out.1.body ≠ Wire.write (AssignmentReply.mk (some (Assignment.ofTask u)))) ∧
    out.1 = .empty 200 ∧
    (respond out.2 .forTask laterSupply).1 = .refusal 404 "No tasks available" := by
  intro c out
  have hbefore : (c.store.tasks.get? (Id.ofNat 3)).map Task.status = some .pending := by decide
  have hafter : (out.2.store.tasks.get? (Id.ofNat 3)).map Task.status = some .processing := by
    decide
  have hout : out.1 = .empty 200 := by decide
  obtain ⟨t, ht, hp⟩ := Option.map_eq_some_iff.1 hbefore
  obtain ⟨u, hu, hs⟩ := Option.map_eq_some_iff.1 hafter
  have hreply : (out.2.store.tasks.get? (Id.ofNat 3)).map
      (fun u => Wire.write (AssignmentReply.mk (some (Assignment.ofTask u)))) ≠ some "" := by decide
  refine ⟨⟨t, u, ht, hp, hu, hs, fun hbody => hreply ?_⟩, hout, by decide⟩
  rw [hu, Option.map_some, ← hbody, hout]
  rfl

end Http

end Reckoner
