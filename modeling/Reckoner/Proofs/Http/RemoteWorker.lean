import Reckoner.Proofs.Coordinator.Run
import Reckoner.Proofs.Json.Length
import Reckoner.Proofs.Wire.Message
import Reckoner.Worker.Remote

/-!
# Workers on the other side of HTTP

A remote worker is served as a local one is, up to the numbers: an operand or a result arrives as
what is read from its numeral. A result that has none, because it is not finite, is refused, and its
task stays with the worker. Where all numbers arrive as they are, remote workers leave the same
coordinator as local ones.
-/

namespace Reckoner

namespace Http

/-! ## Requests -/

def Response.ofAnswer : Except Fault Unit → Response
  | .ok _ => .json 200 (Acknowledgement.mk "success")
  | .error fault => .ofFault fault

theorem ofTarget?_task : Route.ofTarget? "/internal/task" = some .task := by decide

theorem isJson_application_json :
    ((some "application/json").bind MediaType.parse?).any MediaType.isJson = true := by decide

theorem content?_ofResult {r : TaskResult} (h : (Wire.write r).toByteArray.size ≤ maxBodySize) :
    (Request.ofResult r).content? = (Wire.decode? (Wire.encode r) : Option TaskResult) := by
  simp only [Request.content?, Request.ofResult, isJson_application_json, h, decide_true,
    Bool.and_self, if_true]
  rw [Wire.readBytes?_toByteArray, Wire.read?_write (Wire.regular_result r)]

theorem respond_ofResult (c : Coordinator) (s : Supply) {r : TaskResult}
    (h : (Wire.write r).toByteArray.size ≤ maxBodySize) : respond c (.ofResult r) s =
      match (Wire.decode? (Wire.encode r) : Option TaskResult) with
      | none => (.refusal 422 "Invalid request payload", c)
      | some r => receive c s r := by
  have hc := content?_ofResult h
  simp only [respond, Request.ofResult, ofTarget?_task, answer, withContent] at hc ⊢
  rw [hc]
  cases (Wire.decode? (Wire.encode r) : Option TaskResult) <;> rfl

theorem respond_large (c : Coordinator) (s : Supply) {r : TaskResult}
    (h : ¬(Wire.write r).toByteArray.size ≤ maxBodySize) :
    respond c (.ofResult r) s = (.refusal 422 "Invalid request payload", c) := by
  have hc : (Request.ofResult r).content? = (none : Option TaskResult) := by
    simp only [Request.content?, Request.ofResult, h, decide_false, Bool.and_false,
      Bool.false_eq_true, if_false]
  simp only [respond, Request.ofResult, ofTarget?_task, answer, withContent] at hc ⊢
  rw [hc]

theorem receive_eq (c : Coordinator) (s : Supply) {r : TaskResult} {report : Report}
    (h : r.report? = .ok report) :
    receive c s r = (.ofAnswer (c.receive r s.now).1, (c.receive r s.now).2) := by
  unfold receive Coordinator.receive
  rw [h]
  dsimp only
  rcases c.report r.id report s.now with ⟨fault | e, c'⟩ <;> rfl

theorem respond_failed (c : Coordinator) (s : Supply) {id : TaskId} {message : String}
    (h : (Wire.write (TaskResult.failed id message)).toByteArray.size ≤ maxBodySize) :
    respond c (.ofResult (.failed id message)) s =
      (.ofAnswer (c.receive (.failed id message) s.now).1,
        (c.receive (.failed id message) s.now).2) := by
  rw [respond_ofResult c s h, Wire.decode?_encode_failed]
  exact receive_eq c s rfl

/-- The text of one number always has its place in a body. -/
theorem respond_completed (c : Coordinator) (s : Supply) {id : TaskId} (v : Float) :
    respond c (.ofResult (.completed id v)) s =
      match (Wire.decode? (Wire.encode (TaskResult.completed id v)) : Option TaskResult) with
      | none => (.refusal 422 "Invalid request payload", c)
      | some r => receive c s r := by
  rw [respond_ofResult c s (Nat.le_trans (Wire.size_write_completed id v) (by decide))]

theorem respond_completed_of_some (c : Coordinator) (s : Supply) {id : TaskId} {v w : Float}
    (hv : Json.passed? v = some w) : respond c (.ofResult (.completed id v)) s =
      (.ofAnswer (c.receive (.completed id w) s.now).1, (c.receive (.completed id w) s.now).2) := by
  rw [respond_completed c s, Wire.decode?_encode_completed_of_passed id hv]
  exact receive_eq c s rfl

theorem respond_completed_of_none (c : Coordinator) (s : Supply) {id : TaskId} {v : Float}
    (hv : Json.passed? v = none) : ∃ reason, respond c (.ofResult (.completed id v)) s =
      (.refusal 422 reason, c) := by
  rw [respond_completed c s, Wire.decode?_encode_completed]
  rcases Wire.nullable?_ofFloat v with e | ⟨-, e⟩
  · rw [e, hv]
    exact ⟨_, rfl⟩
  · rw [e]
    exact ⟨_, rfl⟩

theorem respond_forTask (c : Coordinator) (s : Supply) : respond c .forTask s = assign c s := by
  simp only [respond, Request.forTask, ofTarget?_task, answer]

/-! ## Sessions -/

inductive Exchange where
  | fetch (supply : Supply)
  | send (result : TaskResult) (supply : Supply)

namespace Exchange

def remote (c : Coordinator) : Exchange → Coordinator
  | fetch s => (respond c .forTask s).2
  | send r s => (respond c (.ofResult r) s).2

def inProcess (c : Coordinator) : Exchange → Coordinator
  | fetch s => (c.fetch s.asked s.now).2
  | send r s => (c.receive r s.now).2

/--
What is sent arrives as it is: a number is read from its own numeral, and a message has its place in
a body.
-/
inductive Intact : Exchange → Prop where
  | fetch (s : Supply) : Intact (.fetch s)
  | completed {id v} (s : Supply) (hv : Json.passed? v = some v) :
    Intact (.send (.completed id v) s)
  | failed {id message} (s : Supply)
      (h : (Wire.write (TaskResult.failed id message)).toByteArray.size ≤ maxBodySize) :
      Intact (.send (.failed id message) s)

theorem Intact.remote_eq {e : Exchange} (h : e.Intact) (c : Coordinator) :
    remote c e = inProcess c e := by
  cases h with
  | fetch s =>
    rw [remote, respond_forTask, assign, inProcess]
    rcases c.fetch s.asked s.now with ⟨_ | a, c'⟩ <;> rfl
  | completed s hv => rw [remote, respond_completed_of_some c s hv, inProcess]
  | failed s hsize => rw [remote, respond_failed c s hsize, inProcess]

/-- A session in which everything arrives as it is leaves the same coordinator on both paths. -/
theorem foldl_remote_eq {exchanges : List Exchange} (h : ∀ e ∈ exchanges, e.Intact)
    (c : Coordinator) : exchanges.foldl remote c = exchanges.foldl inProcess c := by
  induction exchanges generalizing c with
  | nil => rfl
  | cons e rest ih =>
    rw [List.foldl_cons, List.foldl_cons, (h e (by simp)).remote_eq c]
    exact ih (fun e' he => h e' (by simp [he])) _

end Exchange

end Http

/-! ## Crews -/

open Coordinator Http

def Worker.Intact (clock : Nat → Instant) (s : Clocked) : Worker → Prop
  | .idle => ∀ a, (s.coordinator.fetch (clock s.reads) (clock (s.reads + 1))).1 = some a →
      a.passed? = some a
  | .busy task => ∀ v, task.compute = .ok v → Json.passed? v = some v

namespace Crew

/-- The numbers of every exchange arrive as they are, turn by turn as local workers take them. -/
def Intact (clock : Nat → Instant) : Crew Clocked → List Nat → Prop
  | _, [] => True
  | crew, k :: turns => (∀ w, crew.workers[k]? = some w → w.Intact clock crew.state) ∧
      (crew.turn (Coordinator.source clock) k).Intact clock turns

end Crew

section
variable (unreadable : Fault) (stamp : Stamp) (clock : Nat → Instant)

theorem assignment?_of_passed {a : Assignment} (h : a.passed? = some a) :
    (Response.json 200 (AssignmentReply.mk (some a))).assignment? unreadable = .ok (some a) := by
  have hread := Wire.read?_assignmentReply a
  rw [h, Option.map_some] at hread
  unfold Response.assignment? Response.json
  dsimp only
  rw [hread]
  rfl

/-- The only fault of an operation has a short message. -/
theorem size_write_fault {task : Assignment} {fault : Fault} (h : task.compute = .error fault) :
    (Wire.write (TaskResult.failed task.id fault.message)).toByteArray.size ≤ maxBodySize := by
  obtain rfl : fault = .divisionByZero := by
    unfold Assignment.compute Operation.apply at h
    split at h
    case h_4 =>
      split at h
      · exact (Except.error.inj h).symm
      · cases h
    all_goals cases h
  exact Nat.le_trans (Wire.size_write_failed task.id Fault.divisionByZero.message) (by decide)

theorem Worker.step_remote_eq {w : Worker} {s : Clocked} (h : w.Intact clock s) :
    w.step (remoteSource unreadable stamp clock) s = w.step (Coordinator.source clock) s := by
  cases w with
  | idle =>
    unfold step remoteSource Coordinator.source
    dsimp only
    rw [respond_forTask, assign]
    dsimp only
    unfold Intact at h
    generalize s.coordinator.fetch (clock s.reads) (clock (s.reads + 1)) = fetched at *
    obtain ⟨_ | a, c⟩ := fetched
    · rfl
    · dsimp only
      rw [assignment?_of_passed unreadable (h a rfl)]
  | busy task =>
    unfold step remoteSource Coordinator.source Assignment.work
    dsimp only
    cases hcompute : task.compute with
    | ok v =>
      dsimp only
      rw [respond_completed_of_some _ _ (h v hcompute)]
    | error fault =>
      dsimp only
      rw [respond_failed _ _ (size_write_fault hcompute)]

theorem Crew.turn_remote_eq {crew : Crew Clocked} {k : Nat}
    (h : ∀ w, crew.workers[k]? = some w → w.Intact clock crew.state) :
    crew.turn (remoteSource unreadable stamp clock) k = crew.turn (Coordinator.source clock) k := by
  unfold turn
  cases hw : crew.workers[k]? with
  | none => rfl
  | some w =>
    dsimp only
    rw [Worker.step_remote_eq unreadable stamp clock (h w hw)]

/--
A crew whose numbers arrive leaves the same coordinator on both paths, and stands where it would
stand.
-/
theorem Crew.run_remote_eq {crew : Crew Clocked} {turns : List Nat} (h : crew.Intact clock turns) :
    crew.run (remoteSource unreadable stamp clock) turns =
      crew.run (Coordinator.source clock) turns := by
  induction turns generalizing crew with
  | nil => rfl
  | cons k turns ih =>
    have hturn := turn_remote_eq unreadable stamp clock h.1
    unfold run at ih ⊢
    rw [List.foldl_cons, List.foldl_cons, hturn]
    exact ih h.2

end

namespace Http

/-! ## The worker path -/

/--
A remote worker gets the task that a local one would get, with the operands that arrive. Its results
are taken like those of a local one, as what arrives, and without effect if nothing does. Numbers
with short numerals arrive as they are, so do whole numbers that are not too large; the numbers that
are not finite never arrive. Where all that is sent arrives as it is, whole sessions leave the same
coordinator, and crews of workers run alike.
-/
theorem respond_worker (c : Coordinator) (s : Supply) :
    (∀ c', c.fetch s.asked s.now = (none, c') →
      respond c .forTask s = (.refusal 404 "No tasks available", c')) ∧
    (∀ a c', c.fetch s.asked s.now = (some a, c') →
      ∃ body, respond c .forTask s = (⟨200, body⟩, c') ∧
        (Wire.read? body : Option AssignmentReply) = a.passed?.map fun a => ⟨some a⟩) ∧
    (∀ id message,
      ((Wire.write (TaskResult.failed id message)).toByteArray.size ≤ maxBodySize →
        ∀ answer c', c.receive (.failed id message) s.now = (answer, c') →
          respond c (.ofResult (.failed id message)) s = (.ofAnswer answer, c')) ∧
      (maxBodySize < (Wire.write (TaskResult.failed id message)).toByteArray.size →
        respond c (.ofResult (.failed id message)) s =
          (.refusal 422 "Invalid request payload", c))) ∧
    (∀ id v,
      (Json.passed? v = some v → ∀ answer c', c.receive (.completed id v) s.now = (answer, c') →
        respond c (.ofResult (.completed id v)) s = (.ofAnswer answer, c')) ∧
      (∀ w, Json.passed? v = some w →
        ∀ answer c', c.receive (.completed id w) s.now = (answer, c') →
          respond c (.ofResult (.completed id v)) s = (.ofAnswer answer, c')) ∧
      (Json.passed? v = none →
        ∃ reason, respond c (.ofResult (.completed id v)) s = (.refusal 422 reason, c))) ∧
    (∀ v n, Layout.json.numeral? v = some n → n.Short → Json.passed? v = some v) ∧
    (∀ k, 10 * k < 2 ^ 53 → Json.passed? (Float.ofNat k) = some (Float.ofNat k) ∧
      Json.passed? (-Float.ofNat k) = some (-Float.ofNat k)) ∧
    (∀ v : Float, v = 0.0 / 0.0 ∨ v = 1.0 / 0.0 ∨ v = -1.0 / 0.0 → Json.passed? v = none) ∧
    (∀ exchanges : List Exchange, (∀ e ∈ exchanges, e.Intact) →
      exchanges.foldl Exchange.remote c = exchanges.foldl Exchange.inProcess c) ∧
    ∀ unreadable stamp clock (crew : Crew Clocked) turns, crew.Intact clock turns →
      crew.run (remoteSource unreadable stamp clock) turns =
        crew.run (Coordinator.source clock) turns := by
  refine ⟨fun c' h => ?_, fun a c' h => ?_, fun id message => ⟨?_, ?_⟩, fun id v => ⟨?_, ?_, ?_⟩,
    ?_, ?_, ?_, ?_, ?_⟩
  · rw [respond_forTask, assign, h]
  · rw [respond_forTask, assign, h]
    exact ⟨_, rfl, Wire.read?_assignmentReply a⟩
  · intro hsize answer c' h
    rw [respond_failed c s hsize, h]
  · intro hsize
    exact respond_large c s (Nat.not_le.mpr hsize)
  · intro hv answer c' h
    rw [respond_completed_of_some c s hv, h]
  · intro w hw answer c' h
    rw [respond_completed_of_some c s hw, h]
  · exact respond_completed_of_none c s
  · exact fun v n hn h => Json.passed?_eq_some hn h
  · exact fun k h => Json.passed?_ofNat h
  · rintro v (rfl | rfl | rfl) <;> decide
  · exact fun exchanges h => Exchange.foldl_remote_eq h c
  · exact fun unreadable stamp clock crew turns h => Crew.run_remote_eq unreadable stamp clock h

def laterSupply : Supply :=
  ⟨Evaluation.stamp 9, Evaluation.stamp, Evaluation.clock 3, Evaluation.clock 4⟩

/--
The product of 2 and 3 arrives as 6 in one request, and a crew of one remote worker brings it about.
-/
theorem respond_worker_of_product :
    let c := (Coordinator.initial .instant none).run [.submitText "2*3" 0]
    let handed := c.run [.nextTask (Evaluation.clock 1) (Evaluation.clock 2)]
    let crew : Crew Clocked := .gather 1 ⟨c, 1⟩
    let remote :=
      crew.run (remoteSource .divisionByZero (Evaluation.stamp 9) Evaluation.clock) [0, 0]
    (Json.passed? 6.0 = some 6.0 ∧
      ∃ c', handed.receive (.completed (Id.ofNat 3) 6.0) laterSupply.now = (.ok (), c') ∧
        respond handed (.ofResult (.completed (Id.ofNat 3) 6.0)) laterSupply =
          (.ofAnswer (.ok ()), c')) ∧
    (∃ reason, respond handed (.ofResult (.completed (Id.ofNat 3) (1.0 / 0.0))) laterSupply =
      (.refusal 422 reason, handed)) ∧
    crew.Intact Evaluation.clock [0, 0] ∧
    remote = crew.run (Coordinator.source Evaluation.clock) [0, 0] ∧
    remote.state.coordinator.store.expressions.values.map (fun e => (e.status, e.result)) =
      [(.completed, some 6.0)] := by
  intro c handed crew remote
  obtain ⟨-, -, -, hcompleted, -, hwhole, hnone, -, hcrew⟩ := respond_worker handed laterSupply
  have hsix : Json.passed? 6.0 = some 6.0 := (hwhole 6 (by decide)).1
  have hfetched : (c.fetch (Evaluation.clock 1) (Evaluation.clock 2)).1 =
      some ⟨Id.ofNat 3, 2.0, 3.0, .multiplication, 0⟩ := by decide
  have hbusy : (crew.turn (Coordinator.source Evaluation.clock) 0).workers[0]? =
      some (.busy ⟨Id.ofNat 3, 2.0, 3.0, .multiplication, 0⟩) := by decide
  have hintact : crew.Intact Evaluation.clock [0, 0] := by
    refine ⟨?_, ?_, trivial⟩
    · rintro w hw
      obtain rfl : Worker.idle = w := Option.some.inj hw
      intro a ha
      obtain rfl := Option.some.inj (hfetched.symm.trans ha)
      decide
    · rintro w hw
      obtain rfl := Option.some.inj (hbusy.symm.trans hw)
      intro v hv
      obtain rfl : (6.0 : Float) = v := Except.ok.inj hv
      exact hsix
  have hsame := hcrew .divisionByZero (Evaluation.stamp 9) Evaluation.clock crew [0, 0] hintact
  refine ⟨⟨hsix, ?_⟩, (hcompleted (Id.ofNat 3) (1.0 / 0.0)).2.2 (hnone _ (.inr (.inl rfl))),
    hintact, hsame, ?_⟩
  · have htaken : (handed.receive (.completed (Id.ofNat 3) 6.0) laterSupply.now).1 = .ok () := by
      decide
    rcases hreceive : handed.receive (.completed (Id.ofNat 3) 6.0) laterSupply.now with ⟨answer, c'⟩
    rw [hreceive] at htaken
    obtain rfl : answer = .ok () := htaken
    exact ⟨c', rfl, (hcompleted (Id.ofNat 3) 6.0).1 hsix _ c' hreceive⟩
  · have hremote : remote = crew.run (Coordinator.source Evaluation.clock) [0, 0] := hsame
    rw [hremote]
    decide +kernel

/-- A local worker may send the infinite product of `1e308*10`; from a remote one it is refused. -/
theorem infinite_result_refused :
    let c := (Coordinator.initial .instant none).run
      [.submitText "1e308*10" 0, .nextTask (Evaluation.clock 1) (Evaluation.clock 2)]
    (c.receive (.completed (Id.ofNat 3) (1.0 / 0.0)) laterSupply.now).1 = .ok () ∧
      (respond c (.ofResult (.completed (Id.ofNat 3) (1.0 / 0.0))) laterSupply).1 =
        .refusal 422 "Result or error is required" ∧
      Json.passed? 9007199254740991.0 = some 9007199254740990.0 := by
  intro c
  exact ⟨by decide, by decide, by decide +kernel⟩

end Http

end Reckoner
