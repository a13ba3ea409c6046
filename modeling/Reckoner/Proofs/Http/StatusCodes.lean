import Reckoner.Proofs.Formula.Blank
import Reckoner.Proofs.History
import Reckoner.Proofs.Http.RemoteWorker
import Reckoner.Proofs.Reports

/-!
# Status codes

The status of an answer to a `POST` says what has become of the store: nothing has changed if the
client is to blame, one failed expression is new if the text cannot be read, and otherwise the
request has been carried out. Whatever requests come, the coordinator goes through a run of calls,
so it stays sound.
-/

namespace Reckoner

inductive TaskResult.Reports (m : TaskResult) : Report → Prop where
  | failed {message} (h : m.error = some message) : m.Reports (.failed message)
  | completed {v} (herror : m.error = none) (hresult : m.result = some v) : m.Reports (.completed v)

theorem TaskResult.report?_eq_ok {m : TaskResult} {report : Report} : m.report? = .ok report ↔
    m.Reports report := by
  constructor
  · intro h
    unfold report? at h
    split at h
    · rename_i he
      cases h
      exact .failed he
    · rename_i he hr
      cases h
      exact .completed he hr
    · cases h
  · intro h
    cases h with
    | failed he => simp [report?, he]
    | completed he hr => simp [report?, he, hr]

structure Store.Gains (s s' : Store) (e : Expression) : Prop where
  fresh : s.expressions[e.id]? = none
  expressions : ∀ j, s'.expressions[j]? = if e.id = j then some e else s.expressions[j]?

namespace Http

/-! ## The calls behind requests -/

def call? (r : Request) (s : Supply) : Option Call :=
  match Route.ofTarget? r.target, r.method with
  | some .calculate, .post =>
    (r.content? : Option Submission).bind fun m =>
      if Text.isBlankText m.text then none else some (.submit m.text s.stamp s.stamps s.now)
  | some .task, .post =>
    (r.content? : Option TaskResult).bind fun m => m.report?.toOption.map fun report =>
      .report m.id report s.now
  | some .task, .get => some (.nextTask s.asked s.now)
  | some .task, .head => some (.nextTask s.asked s.now)
  | _, _ => none

def serve (c : Coordinator) (requests : List (Request × Supply)) : Coordinator :=
  requests.foldl (fun c request => (respond c request.1 request.2).2) c

def callsOf (requests : List (Request × Supply)) : List Call :=
  requests.filterMap fun request => call? request.1 request.2

variable {c : Coordinator} {r : Request} {s : Supply}

theorem submit_state (m : Submission) : (submit c s m).2 = c.run
    (if Text.isBlankText m.text then none else
      some (.submit m.text s.stamp s.stamps s.now)).toList := by
  unfold submit
  split
  · rfl
  · split
    · rename_i h
      exact (congrArg Prod.snd h).symm
    · rename_i h
      exact (congrArg Prod.snd h).symm

theorem receive_state (m : TaskResult) : (receive c s m).2 =
    c.run (m.report?.toOption.map fun report => .report m.id report s.now).toList := by
  unfold receive
  cases m.report? with
  | error fault => rfl
  | ok report =>
    dsimp only
    split
    · rename_i h
      exact (congrArg Prod.snd h).symm
    · rename_i h
      exact (congrArg Prod.snd h).symm

theorem assign_state : (assign c s).2 = c.run [.nextTask s.asked s.now] := by
  have hfetch : (c.fetch s.asked s.now).2 = c.run [.nextTask s.asked s.now] := rfl
  rw [← hfetch, assign]
  split
  · rename_i h
    rw [h]
  · rename_i h
    rw [h]

theorem withContent_state {α : Type} [Wire α] {answer : α → Response × Coordinator}
    {call : α → Option Call} (h : ∀ a, (answer a).2 = c.run (call a).toList) :
    (withContent c r answer).2 = c.run ((r.content? : Option α).bind call).toList := by
  unfold withContent
  cases (r.content? : Option α) with
  | none => rfl
  | some a => exact h a

theorem respond_state (c : Coordinator) (r : Request) (s : Supply) :
    (respond c r s).2 = c.run (call? r s).toList := by
  unfold respond call?
  cases Route.ofTarget? r.target with
  | none => rfl
  | some route =>
    cases r.method <;> cases route
    case post.calculate => exact withContent_state submit_state
    case post.task => exact withContent_state receive_state
    case get.task => exact assign_state
    case head.task => exact assign_state
    all_goals rfl

theorem serve_eq_run (requests : List (Request × Supply)) :
    serve c requests = c.run (callsOf requests) := by
  induction requests generalizing c with
  | nil => rfl
  | cons request rest ih =>
    have hcalls : callsOf (request :: rest) = (call? request.1 request.2).toList ++
        callsOf rest := by
      rw [callsOf, callsOf, List.filterMap_cons]
      cases call? request.1 request.2 <;> rfl
    rw [hcalls, Coordinator.run_append, ← respond_state, ← ih]
    rfl

/-! ## Submissions -/

section
variable {m : Submission}

theorem submit_of_blank (hb : Text.isBlankText m.text = true) :
    submit c s m = (.refusal 422 "Expression is required", c) := if_pos hb

variable (hb : Text.isBlankText m.text = false)
include hb

theorem submit_of_unreadable (hf : (Call.submit m.text s.stamp s.stamps s.now).Fresh c.store)
    (hs : c.store.Sound c.times) {cause : SyntaxError} (hp : Formula.parse m.text = .error cause) :
    ∃ c', submit c s m = (.refusal 500 s!"Failed to process expression: {cause.message}", c') ∧
      c'.store.tasks = c.store.tasks ∧ ∃ e, c.store.Gains c'.store e ∧ e.text = m.text ∧
      e.status = .failed ∧
        e.error = some cause.message ∧ e.taskIds = [] ∧ c'.store.tasksOf e.id = [] := by
  have hnew := hf.expressions _ Call.stamp_mem_draws
  obtain ⟨s', hs', htasks, hexpr⟩ := c.submit_eq_of_error hp s.stamp s.stamps s.now
  refine ⟨{ c with store := s' }, ?_, htasks,
    (Expression.create m.text s.stamp).fail cause.message s.now,
    ⟨hnew, hexpr⟩, rfl, rfl, rfl, rfl, ?_⟩
  · simp only [submit, hb, hs']
    rfl
  · rw [Store.tasksOf, htasks, TaskTable.ofOwner_eq]
    exact congrArg _ (Store.idsOf_eq_nil hs.table.indexed hs.owner hnew)

theorem submit_of_readable (hf : (Call.submit m.text s.stamp s.stamps s.now).Fresh c.store)
    (hs : c.store.Sound c.times) {f : Formula} (hp : Formula.parse m.text = .ok f) :
    ∃ e c', submit c s m = (.json 201 (Receipt.mk e.id), c') ∧ c.store.Gains c'.store e ∧
      e.text = m.text ∧
      e.status ≠ .failed := by
  obtain ⟨hanswer, hrecorded⟩ := Coordinator.recorded_submit hs hp hf
  obtain ⟨e, he, htext, -, hshows⟩ := hrecorded.expression
  obtain ⟨e', hid, -, -, hexpr⟩ := Coordinator.expressions_submit hs hf
  have hsame := hexpr ⟨s.stamp.uuid⟩
  rw [he, if_pos rfl, Option.some.injEq] at hsame
  subst hsame
  refine ⟨e, (c.submit m.text s.stamp s.stamps s.now).2, ?_, ⟨?_, ?_⟩, htext, ?_⟩
  · have hsubmit : c.submit m.text s.stamp s.stamps s.now = (.ok ⟨s.stamp.uuid⟩, _) :=
      Prod.ext hanswer rfl
    simp only [submit, hb, Bool.false_eq_true, if_false, hid]
    rw [hsubmit]
  · rw [hid]
    exact hf.expressions _ Call.stamp_mem_draws
  · rw [hid]
    exact hexpr
  · -- a formula that has been read shows its number, or that it is being worked out
    intro hfailed
    cases f with
    | number v => cases hfailed.symm.trans hshows.1
    | binary op left right => cases hfailed.symm.trans hshows.1

omit hb in
theorem status_submit
    (hf : Text.isBlankText m.text = false → (Call.submit m.text s.stamp s.stamps s.now).Fresh
      c.store)
    (hs : c.store.Sound c.times) : (submit c s m).1.status =
      if Text.isBlankText m.text then 422 else if (Formula.parse m.text).isOk then 201
      else 500 := by
  cases hb : Text.isBlankText m.text with
  | true =>
    rw [submit_of_blank hb]
    rfl
  | false =>
    cases hp : Formula.parse m.text with
    | error cause =>
      obtain ⟨c', hsubmit, -⟩ := submit_of_unreadable hb (hf hb) hs hp
      rw [hsubmit]
      rfl
    | ok f =>
      obtain ⟨e, c', hsubmit, -⟩ := submit_of_readable hb (hf hb) hs hp
      rw [hsubmit]
      rfl

end

/-! ## Reports -/

section
variable {m : TaskResult}

theorem receive_of_empty (hr : m.result = none) (he : m.error = none) :
    receive c s m = (.refusal 422 "Result or error is required", c) := by
  simp [receive, TaskResult.report?, hr, he]

variable {report : Report} (h : m.Reports report)
include h

theorem receive_of_unknown (hm : c.store.tasks.get? m.id = none) :
    receive c s m = (.refusal 404 "Task not found", c) := by
  simp only [receive, TaskResult.report?_eq_ok.2 h, Coordinator.report_eq_of_unknown hm]
  rfl

theorem receive_of_known (hs : c.store.Sound c.times) {t : Task}
    (ht : c.store.tasks.get? m.id = some t) :
    ∃ e s₁ o c', receive c s m = (.json 200 (Acknowledgement.mk "success"), c') ∧
      c.Takes t report s.now e s₁ o c' := by
  have hid := hs.table.indexed.id_eq ht
  obtain ⟨e, s₁, o, c', htakes⟩ := Coordinator.exists_takes hs (hid ▸ ht) report s.now
  refine ⟨e, s₁, o, c', ?_, htakes⟩
  simp only [receive, TaskResult.report?_eq_ok.2 h, ← hid, htakes.report]

end

/-! ## Answers to `POST` -/

section
variable (hm : r.method = .post)
include hm

theorem respond_of_route {route : Route} (hr : Route.ofTarget? r.target = some route) :
    respond c r s = answer c r s route .post := by
  simp only [respond, hr, hm]

theorem respond_submission {m : Submission} (hr : Route.ofTarget? r.target = some .calculate)
    (hc : r.content? = some m) : respond c r s = submit c s m := by
  rw [respond_of_route hm hr]
  simp only [answer, withContent, hc]

theorem respond_result {m : TaskResult} (hr : Route.ofTarget? r.target = some .task)
    (hc : r.content? = some m) : respond c r s = receive c s m := by
  rw [respond_of_route hm hr]
  simp only [answer, withContent, hc]

theorem call?_of_submission {m : Submission} (hr : Route.ofTarget? r.target = some .calculate)
    (hc : r.content? = some m) (hb : Text.isBlankText m.text = false) :
    call? r s = some (.submit m.text s.stamp s.stamps s.now) := by
  simp only [call?, hr, hm, hc, Option.bind_some, hb]
  rfl

/-- An answer that blames the client comes with the coordinator as it was. -/
theorem respond_of_client_error (hs : c.store.Sound c.times)
    (hf : ∀ call, call? r s = some call → call.Fresh c.store)
    (hlow : 400 ≤ (respond c r s).1.status) (hhigh : (respond c r s).1.status < 500) :
    (respond c r s).2 = c := by
  cases hr : Route.ofTarget? r.target with
  | none => simp only [respond, hr]
  | some route =>
    cases route with
    | expressions | expression =>
      rw [respond_of_route hm hr]
      rfl
    | calculate =>
      cases hc : (r.content? : Option Submission) with
      | none =>
        rw [respond_of_route hm hr]
        simp only [answer, withContent, hc]
      | some m =>
        rw [respond_submission hm hr hc] at hlow hhigh ⊢
        cases hb : Text.isBlankText m.text with
        | true => rw [submit_of_blank hb]
        | false =>
          have hfresh := hf _ (call?_of_submission hm hr hc hb)
          cases hp : Formula.parse m.text with
          | error cause =>
            obtain ⟨c', hsubmit, -⟩ := submit_of_unreadable hb hfresh hs hp
            rw [hsubmit] at hhigh
            exact absurd hhigh (Nat.lt_irrefl 500)
          | ok f =>
            obtain ⟨e, c', hsubmit, -⟩ := submit_of_readable hb hfresh hs hp
            rw [hsubmit] at hlow
            exact absurd hlow (show ¬ 400 ≤ 201 by decide)
    | task =>
      cases hc : (r.content? : Option TaskResult) with
      | none =>
        rw [respond_of_route hm hr]
        simp only [answer, withContent, hc]
      | some m =>
        rw [respond_result hm hr hc] at hlow ⊢
        cases hreport : m.report? with
        | error fault => simp only [receive, hreport]
        | ok report =>
          have h := TaskResult.report?_eq_ok.1 hreport
          cases ht : c.store.tasks.get? m.id with
          | none => rw [receive_of_unknown h ht]
          | some t =>
            obtain ⟨e, s₁, o, c', hreceive, -⟩ := receive_of_known h hs ht
            rw [hreceive] at hlow
            exact absurd hlow (show ¬ 400 ≤ 200 by decide)

end

/--
Whatever requests have been answered, an answer to a `POST` that blames the client leaves the
coordinator as it was. A text that is submitted is refused as missing exactly when it is blank,
which is when it is empty to the reader, and as a failure exactly when it cannot be read otherwise;
then one failed expression with the reason and without tasks is new, and no task has changed. Any
other text brings one expression that has not failed. A result without a report is refused, so is
one for an unknown task, and any other is carried out.
-/
theorem respond_post (times : OperationTimes) (lease : Option Duration)
    (before : List (Request × Supply)) (r : Request) (s : Supply) (hm : r.method = .post)
    (hd : ((callsOf (before ++ [(r, s)])).flatMap Call.draws).Nodup) :
    let c := serve (.initial times lease) before
    let out := respond c r s
    (400 ≤ out.1.status → out.1.status < 500 → out.2 = c) ∧
    (∀ m : Submission, Route.ofTarget? r.target = some .calculate → r.content? = some m →
      (out.1.status = 422 ↔ Text.isBlankText m.text = true) ∧
      (Text.isBlankText m.text = true ↔ Formula.parse m.text = .error .empty) ∧
      (out.1.status = 500 ↔ Text.isBlankText m.text = false ∧
        ∃ cause, Formula.parse m.text = .error cause) ∧
      (∀ cause, Text.isBlankText m.text = false → Formula.parse m.text = .error cause →
        out.1 = .refusal 500 s!"Failed to process expression: {cause.message}" ∧
        out.2.store.tasks = c.store.tasks ∧
        ∃ e, c.store.Gains out.2.store e ∧ e.text = m.text ∧ e.status = .failed ∧
          e.error = some cause.message ∧ e.taskIds = [] ∧ out.2.store.tasksOf e.id = []) ∧
      ∀ f, Formula.parse m.text = .ok f → ∃ e, out.1 = .json 201 (Receipt.mk e.id) ∧
        c.store.Gains out.2.store e ∧ e.text = m.text ∧ e.status ≠ .failed) ∧
    ∀ m : TaskResult, Route.ofTarget? r.target = some .task → r.content? = some m →
      (m.result = none → m.error = none → out.1 = .refusal 422 "Result or error is required") ∧
      ∀ report, m.Reports report →
        (c.store.tasks.get? m.id = none → out.1 = .refusal 404 "Task not found") ∧
        ∀ t, c.store.tasks.get? m.id = some t → out.1 = .json 200 (Acknowledgement.mk "success") ∧
          ∃ e s₁ o, c.Takes t report s.now e s₁ o out.2 := by
  intro c out
  have hcalls : callsOf (before ++ [(r, s)]) = callsOf before ++ (call? r s).toList := by
    rw [callsOf, List.filterMap_append]
    cases hcall : call? r s <;> simp [callsOf, hcall]
  rw [hcalls] at hd
  have hc : c = (Coordinator.initial times lease).run (callsOf before) := serve_eq_run before
  have hs : c.store.Sound c.times := by
    rw [List.flatMap_append] at hd
    exact hc ▸ Coordinator.sound_run times lease hd.of_append_left
  have hf : ∀ call, call? r s = some call → call.Fresh c.store := by
    intro call hcall
    rw [hcall] at hd
    exact hc ▸ Coordinator.fresh_run times lease hd
  refine ⟨respond_of_client_error hm hs hf, fun m hr hcontent => ?_, fun m hr hcontent => ?_⟩
  · have hout : out = submit c s m := respond_submission hm hr hcontent
    have hfresh : Text.isBlankText m.text = false →
        (Call.submit m.text s.stamp s.stamps s.now).Fresh c.store :=
      fun hb => hf _ (call?_of_submission hm hr hcontent hb)
    have hstatus := status_submit hfresh hs
    rw [← hout] at hstatus
    refine ⟨?_, Formula.parse_eq_empty.symm, ?_, fun cause hb hp => ?_, fun f hp => ?_⟩
    · rw [hstatus]
      split
      · simp [*]
      · split <;> simp [*]
    · rw [hstatus]
      cases Text.isBlankText m.text with
      | true => simp
      | false => cases Formula.parse m.text <;> simp [Except.isOk, Except.toBool]
    · obtain ⟨c', hsubmit, htasks, hgains⟩ := submit_of_unreadable hb (hfresh hb) hs hp
      rw [hout, hsubmit]
      exact ⟨rfl, htasks, hgains⟩
    · have hb : Text.isBlankText m.text = false := by
        rw [Bool.eq_false_iff, ne_eq, ← Formula.parse_eq_empty, hp]
        nofun
      obtain ⟨e, c', hsubmit, hgains⟩ := submit_of_readable hb (hfresh hb) hs hp
      rw [hout, hsubmit]
      exact ⟨e, rfl, hgains⟩
  · have hout : out = receive c s m := respond_result hm hr hcontent
    refine ⟨fun hresult herror => ?_, fun report h => ⟨fun hunknown => ?_, fun t ht => ?_⟩⟩
    · rw [hout, receive_of_empty hresult herror]
    · rw [hout, receive_of_unknown h hunknown]
    · obtain ⟨e, s₁, o, c', hreceive, htakes⟩ := receive_of_known h hs ht
      rw [hout, hreceive]
      exact ⟨rfl, e, s₁, o, htakes⟩

def Request.ofSubmission (m : Submission) : Request :=
  ⟨.post, "/api/v1/calculate", some "application/json", Wire.write m⟩

def firstSupply : Supply :=
  ⟨Evaluation.stamp 0, fun k => Evaluation.stamp (k + 1), Evaluation.clock 1, Evaluation.clock 2⟩

/-- A product has been submitted. Then comes a sum that is cut off, or the result of the product. -/
theorem respond_post_after_product :
    let c := serve (.initial .instant none) [(.ofSubmission ⟨"2*3"⟩, firstSupply)]
    ((respond c (.ofSubmission ⟨"1+"⟩) laterSupply).1.status = 500 ∧
      ∃ e, c.store.Gains (respond c (.ofSubmission ⟨"1+"⟩) laterSupply).2.store e ∧
        e.error = some "unexpected end of expression") ∧
    (respond c (.ofResult (.completed (Id.ofNat 3) 6.0)) laterSupply).1.status = 200 ∧
      ∃ t e s₁ o, c.Takes t (.completed 6.0) laterSupply.now e s₁ o
        (respond c (.ofResult (.completed (Id.ofNat 3) 6.0)) laterSupply).2 := by
  intro c
  obtain ⟨-, hsum, -⟩ := respond_post .instant none [(.ofSubmission ⟨"2*3"⟩, firstSupply)]
    (.ofSubmission ⟨"1+"⟩) laterSupply rfl (by decide +kernel)
  obtain ⟨-, -, -, hunreadable, -⟩ := hsum ⟨"1+"⟩ (by decide) (by decide +kernel)
  obtain ⟨hanswer, -, e, hgains, -, -, herror, -⟩ := hunreadable .unexpectedEnd (by decide) rfl
  obtain ⟨-, -, hresult⟩ := respond_post .instant none [(.ofSubmission ⟨"2*3"⟩, firstSupply)]
    (.ofResult (.completed (Id.ofNat 3) 6.0)) laterSupply rfl (by decide +kernel)
  obtain ⟨-, hreported⟩ := hresult (.completed (Id.ofNat 3) 6.0) (by decide) (by decide +kernel)
  have hstored : (c.store.tasks.get? (Id.ofNat 3)).isSome := by decide +kernel
  obtain ⟨t, ht⟩ := Option.isSome_iff_exists.1 hstored
  obtain ⟨hsuccess, htakes⟩ := (hreported (.completed 6.0) (.completed rfl rfl)).2 t ht
  refine ⟨⟨?_, e, hgains, herror⟩, ?_, t, htakes⟩
  · rw [hanswer]
    rfl
  · rw [hsuccess]
    rfl

end Http

end Reckoner
