import Reckoner.Proofs.Worker.Crew
import Reckoner.CommandLine.Run

/-!
# Evaluation by workers

Local workers find what direct evaluation finds, in whichever order they take their turns. From the
submission on the crew is staffed, so every round of turns brings the end nearer, and what is final
agrees with the formula. The evaluation that is run is the case where the workers take turns one
after the other.
-/

namespace Reckoner

/-! ## After a submission -/

namespace Coordinator

variable (times : OperationTimes) (lease : Option Duration) (text : String) (stamp : Stamp)
  (stamps : Nat → Stamp) (now : Instant)

/-- After the first submission nothing is stored but what its plan has, as it was made. -/
theorem exists_mem_plan_of_submit {i : TaskId} {u : Task}
    (hu : ((initial times lease).submit text stamp stamps now).2.store.tasks.get? i = some u) :
    ∃ f : Formula, ∃ t ∈ f.plan times ⟨stamp.uuid⟩ stamps, u.owner = t.owner ∧
      u.status = t.status := by
  have hempty : ∀ j, (initial times lease).store.tasks.get? j = none := fun j =>
    by simp [initial, Store.empty]
  rcases tasks_submit (initial times lease) text stamp stamps now with e | ⟨f, hn, -, e⟩
  · rw [e, hempty] at hu
    cases hu
  · rw [e] at hu
    obtain ⟨t, ⟨ht, rfl⟩ | ht, -⟩ := TaskTable.exists_get?_of_arrived hn hu
    · have hkept := TaskTable.map_get?_arrived_of_mem (f := fun t : Task => (t.owner, t.status))
          (fun _ _ _ => rfl)
        (initial times lease).store.tasks hn ht
      rw [hu, Option.map_some, Option.some.injEq, Prod.mk.injEq] at hkept
      exact ⟨f, t, ht, hkept⟩
    · rw [hempty] at ht
      cases ht

end Coordinator

theorem Crew.staffed_gather (times : OperationTimes) (workers : Nat) {text : String} {f : Formula}
    (hp : Formula.parse text = .ok f) {stamp : Stamp} {stamps : Nat → Stamp} {now : Instant}
    (hd : (Call.submit text stamp stamps now).draws.Nodup) (reads : Nat) :
    (gather workers
      (⟨(Coordinator.initial times none).after (.submit text stamp stamps now), reads⟩ :
      Coordinator.Clocked)).Staffed ⟨stamp.uuid⟩ [] := by
  have hd' : (([] ++ [Call.submit text stamp stamps now]).flatMap Call.draws).Nodup := by
    simpa using hd
  have hidle : ∀ {k : Nat} {a : Assignment}, (List.replicate (max workers 1) Worker.idle)[k]? ≠
      some (.busy a) := by
    intro k a h
    cases List.eq_of_mem_replicate (List.mem_of_getElem? h)
  constructor
  case toServes =>
    exact (Coordinator.Serves.initial times).after (.submit text stamp stamps now)
      (Coordinator.fresh_run times none hd')
      trivial
  case filed =>
    obtain ⟨-, -, -, e, he, -⟩ := Coordinator.recorded_run times none hp hd'
    exact ⟨e, he⟩
  case owned =>
    intro i u hu
    obtain ⟨g, t, ht, ho, -⟩ :=
      Coordinator.exists_mem_plan_of_submit times none text stamp stamps now hu
    exact ho.trans (Plan.owner_of_mem ht)
  case heldBy =>
    refine ⟨fun ha => absurd ha hidle, fun ha => absurd ha hidle, fun hu hs => ?_⟩
    obtain ⟨g, t, ht, -, hst⟩ :=
      Coordinator.exists_mem_plan_of_submit times none text stamp stamps now hu
    exact absurd (hst.symm.trans hs) (Plan.not_processing_of_mem ht)
  case assigned => exact fun ha => absurd ha hidle
  case dispatched => exact fun t ht => nomatch ht

/-! ## Any order of turns -/

namespace Crew

theorem draws_calls (clock : Nat → Instant) (crew : Crew Coordinator.Clocked) (turns : List Nat) :
    (crew.calls clock turns).flatMap Call.draws = [] := by
  induction turns generalizing crew with
  | nil => rfl
  | cons k rest ih =>
    rw [calls, List.flatMap_append, ih, List.append_nil, call?]
    cases crew.workers[k]? with
    | none => rfl
    | some w => cases w <;> rfl

/--
The calls bring the coordinator where the crew has it, with the way to the end open: a task is at
hand or with a worker unless the expression is final, no task of the plan goes out twice, and if all
that went out has come back and nothing is at hand, the expression is final.
-/
structure Unstalled (c : Coordinator) (calls : List Call) (owner : ExpressionId) (plan : List Task)
    (crew : Crew Coordinator.Clocked) : Prop where
  run : crew.state.coordinator = c.run calls
  active : ∃ e, crew.state.coordinator.store.expressions[owner]? = some e ∧
    (e.status.isTerminal = false →
    ∃ i t, crew.state.coordinator.store.tasks.get? i = some t ∧ t.owner = owner ∧
      (crew.state.coordinator.store.tasks.isEligible t = true ∨
        ∃ (k : Nat) (a : Assignment), crew.workers[k]? = some (.busy a) ∧ a.id = i))
  once : ((c.handedOut calls).map Task.id).Nodup
  planned : ∀ t ∈ c.handedOut calls, t.operation ≠ .value ∧ ∃ p ∈ plan, p.blueprint = t.blueprint
  final : (∀ t ∈ c.handedOut calls, t.id ∈ c.recorded calls) →
    (∀ i t, crew.state.coordinator.store.tasks.get? i = some t →
      crew.state.coordinator.store.tasks.isEligible t = false) →
    ∃ e, crew.state.coordinator.store.expressions[owner]? = some e ∧ e.status.isTerminal = true

namespace Staffed

variable {crew : Crew Coordinator.Clocked} {owner : ExpressionId} {out : List Task}

theorem unstalled (clock : Nat → Instant) (turns : List Nat) (h : crew.Staffed owner [])
    {plan : List Task}
    (hplan : ∀ {i u}, (crew.run (Coordinator.source clock) turns).state.coordinator.store.tasks.get?
      i = some u →
      ∃ p ∈ plan, p.blueprint = u.blueprint) :
    Unstalled crew.state.coordinator (crew.calls clock turns) owner plan
      (crew.run (Coordinator.source clock) turns) := by
  have hrun := coordinator_run clock crew turns
  have h' := h.run clock turns
  rw [List.nil_append] at h'
  obtain ⟨e, he⟩ := h'.filed
  constructor
  case run => exact hrun
  case active => exact ⟨e, he, h'.exists_active he⟩
  case once => exact Coordinator.nodup_handedOut h.proper h.lease _
  case planned =>
    intro t ht
    obtain ⟨hop, u, hu, hb⟩ := h'.dispatched t ht
    obtain ⟨p, hp, hpb⟩ := hplan hu
    exact ⟨hop, p, hp, hpb.trans hb⟩
  case final =>
    intro hreported hnone
    refine ⟨e, he, ?_⟩
    by_contra hs
    obtain ⟨i, t, ht, -, heligible | ⟨k, a, hk, rfl⟩⟩ :=
      h'.exists_active he (Bool.eq_false_iff.2 hs)
    · rw [hnone i t ht] at heligible
      cases heligible
    · -- what the worker has went out, so it has come back and is finished
      obtain ⟨v, hv, hid, -⟩ := h'.assigned hk
      obtain ⟨u, hu, hfinished⟩ := Coordinator.finished_of_recorded h.proper (hid ▸ hreported v hv)
      obtain ⟨w, hw, hprocessing⟩ := h'.heldBy.busy hk
      rw [hrun] at hw
      cases hu.symm.trans hw
      rcases Task.isFinished_iff.1 hfinished with e | e <;> rw [hprocessing] at e <;> cases e

end Staffed

theorem work_fst {σ : Type} (source : TaskSource σ) (n elapsed : Nat) (crew : Crew σ) :
    (Evaluation.work source n crew elapsed).1 =
      crew.run source (List.replicate n (List.range crew.size)).flatten := by
  induction n generalizing crew elapsed with
  | zero => rfl
  | succ n ih =>
    have hround : crew.rounds source 1 = crew.run source (List.range crew.size) := by
      rw [rounds, List.replicate_one, List.flatten_singleton]
    rw [Evaluation.work, ih, hround, size_run, List.replicate_succ, List.flatten_cons, run_append]

end Crew

namespace Evaluation

/-- What an evaluation has from outside: the identifiers, and the times that its clock shows. -/
structure Outside where
  stamp : Stamp
  stamps : Nat → Stamp
  now : Instant
  clock : Nat → Instant
  /-- How often the clock has been read when the workers begin. -/
  reads : Nat

namespace Outside

section
variable (o : Outside) (times : OperationTimes) (workers : Nat) (text : String) (turns : List Nat)

def id : ExpressionId := ⟨o.stamp.uuid⟩

def submission : Call := .submit text o.stamp o.stamps o.now

def crew : Crew Coordinator.Clocked :=
  .gather workers ⟨(Coordinator.initial times none).after (o.submission text), o.reads⟩

def crewAfter : Crew Coordinator.Clocked :=
  (o.crew times workers text).run (Coordinator.source o.clock) turns

def endingAfter : Option Ending :=
  match ((Coordinator.initial times none).submit text o.stamp o.stamps o.now).1 with
  | .error (.rejected _ cause) => some (.failure cause.message)
  | .error cause => some (.fault cause)
  | .ok id =>
    match (o.crewAfter times workers text turns).state.coordinator.store.expression id with
    | .error cause => some (.fault cause)
    | .ok e => if e.status.isTerminal then some (.ofExpression e) else none

end

section
variable {o : Outside} (times : OperationTimes) (workers : Nat) {text : String}

theorem endingAfter_of_error {cause : SyntaxError} (hp : Formula.parse text = .error cause)
    (turns : List Nat) :
    o.endingAfter times workers text turns = some (.failure cause.message) := by
  obtain ⟨s', hs', -⟩ := Coordinator.submit_eq_of_error (.initial times none) hp o.stamp
    o.stamps o.now
  rw [endingAfter, hs']

variable {f : Formula} (hp : Formula.parse text = .ok f) (hd : (o.submission text).draws.Nodup)
include hp hd

theorem staffed_crew : (o.crew times workers text).Staffed o.id [] :=
  Crew.staffed_gather times workers hp hd o.reads

theorem staffed_crewAfter (turns : List Nat) : (o.crewAfter times workers text turns).Staffed o.id
    ((o.crew times workers text).state.coordinator.handedOut
      ((o.crew times workers text).calls o.clock turns)) :=
  (staffed_crew times workers hp hd).run o.clock turns

theorem recorded_crewAfter (turns : List Nat) : ∃ history,
    (o.crewAfter times workers text turns).state.coordinator.store.Recorded times text o.id o.stamps
      f history := by
  have hrun : (o.crewAfter times workers text turns).state.coordinator =
      (Coordinator.initial times none).run
      ([] ++ o.submission text :: (o.crew times workers text).calls o.clock turns) :=
        Crew.coordinator_run ..
  -- workers draw no identifiers, so those of the submission are all there are
  have hd' : (([] ++ o.submission text :: (o.crew times workers text).calls o.clock turns).flatMap
      Call.draws).Nodup := by
    rw [List.nil_append, List.flatMap_cons, Crew.draws_calls, List.append_nil]
    exact hd
  rw [hrun]
  exact ⟨_, (Coordinator.recorded_run times none hp hd').2⟩

omit workers in
theorem submit_fst : ((Coordinator.initial times none).submit text o.stamp o.stamps o.now).1 =
    .ok o.id := by
  have hd' : (([] ++ [o.submission text]).flatMap Call.draws).Nodup := by simpa using hd
  exact (Coordinator.recorded_run times none hp hd').1

theorem endingAfter_of_ok {turns : List Nat} {e : Expression}
    (he : (o.crewAfter times workers text turns).state.coordinator.store.expressions[o.id]? =
      some e) :
    o.endingAfter times workers text turns = if e.status.isTerminal then some (.ofExpression e)
    else none := by
  rw [endingAfter, submit_fst times hp hd]
  dsimp only
  rw [Store.expression_eq_ok.2 he]

theorem length_idsOf_crew :
    ((o.crew times workers text).state.coordinator.store.tasks.idsOf o.id).length = f.size := by
  obtain ⟨history, hrecorded⟩ := recorded_crewAfter times workers hp hd []
  have hids : ((o.crew times workers text).state.coordinator.store.tasks.ofOwner o.id).map Task.id =
      _ :=
    hrecorded.holds.ids_ofOwner
  rw [(staffed_crew times workers hp hd).sound.table.indexed.ids_ofOwner, Formula.ids_plan] at hids
  rw [hids, List.length_map, List.length_range]

/--
Two rounds for each part of the formula are enough: one to hand its task out, and one to report it.
-/
theorem exists_endingAfter {rounds : List (List Nat)}
    (hall : ∀ turns ∈ rounds, ∀ k < max workers 1, k ∈ turns)
    (hlength : 2 * f.size ≤ rounds.length) :
    (o.endingAfter times workers text rounds.flatten).isSome := by
  have hsize : (o.crew times workers text).size = max workers 1 := Crew.size_gather ..
  have hload : (o.crew times workers text).load o.id ≤ rounds.length := by
    refine (TaskTable.load_le _ _).trans ?_
    rwa [length_idsOf_crew times workers hp hd]
  obtain ⟨e, he, hs⟩ :=
    (staffed_crew times workers hp hd).resolves o.clock rounds (by omega) (hsize ▸ hall) hload
  rw [endingAfter_of_ok times workers hp hd he, if_pos hs]
  rfl

theorem unstalled (turns : List Nat) :
    Crew.Unstalled (o.crew times workers text).state.coordinator
      ((o.crew times workers text).calls o.clock turns)
      o.id (f.plan times o.id o.stamps) (o.crewAfter times workers text turns) := by
  refine (staffed_crew times workers hp hd).unstalled o.clock turns fun {i u} hu => ?_
  have hstaffed := staffed_crewAfter times workers hp hd turns
  have hid := hstaffed.sound.table.indexed.id_eq hu
  have hmem := hstaffed.sound.table.indexed.mem_ofOwner.2 ⟨hid ▸ hu, hstaffed.owned hu⟩
  obtain ⟨history, hrecorded⟩ := recorded_crewAfter times workers hp hd turns
  exact List.mem_map.1 (hrecorded.holds ▸ List.mem_map_of_mem hmem)

omit hp in
theorem endingAfter_append {turns : List Nat} {ending : Ending}
    (h : o.endingAfter times workers text turns = some ending) (more : List Nat) :
    o.endingAfter times workers text (turns ++ more) = some ending := by
  cases hp : Formula.parse text with
  | error cause =>
    rw [endingAfter_of_error times workers hp] at h ⊢
    exact h
  | ok f =>
    have hstaffed := staffed_crewAfter times workers hp hd turns
    obtain ⟨e, he⟩ := hstaffed.filed
    rw [endingAfter_of_ok times workers hp hd he] at h
    split at h
    · rename_i hs
      have he' := hstaffed.final_run o.clock more he hs
      rw [crewAfter, ← Crew.run_append] at he'
      rw [endingAfter_of_ok times workers hp hd he', if_pos hs, h]
    · cases h

end

end Outside

/-! ## The turns that are run -/

section
variable (times : OperationTimes) (workers : Nat) (text : String)

def taskCount : Nat :=
  ((Coordinator.initial times none).submit text (stamp 0) (fun k => stamp (k + 1))
    (clock 0)).2.store.tasks.size

def counted : Outside where
  stamp := stamp 0
  stamps k := stamp (k + 1)
  now := clock 0
  clock := clock
  reads := taskCount times text + 1

theorem submission_counted : (counted times text).submission text = .submitText text 0 := by
  simp only [Outside.submission, counted, Call.submitText, Nat.zero_add, Nat.add_comm 1]

def rounds : List (List Nat) :=
  List.replicate (2 * taskCount times text)
    (List.range (max (min workers (taskCount times text)) 1))

variable {text}

theorem fst_distributed_of_ok {f : Formula} (hp : Formula.parse text = .ok f)
    (hd : ((counted times text).submission text).draws.Nodup) {e : Expression}
    (he : ((counted times text).crewAfter times (min workers (taskCount times text)) text
      (rounds times workers text).flatten).state.coordinator.store.expressions[(counted times
        text).id]? = some e) :
    (distributed times workers text).1 = .ofExpression e := by
  have hsubmit : (Coordinator.initial times none).submit text (stamp 0) (fun k => stamp (k + 1))
      (clock 0) =
        (.ok (counted times text).id, (Coordinator.initial times none).after
        ((counted times text).submission text)) :=
    Prod.ext (Outside.submit_fst times hp hd) rfl
  have hwork : (work (Coordinator.source clock) (2 * taskCount times text)
      ((counted times text).crew times (min workers (taskCount times text)) text) 0).1 =
        (counted times text).crewAfter times (min workers (taskCount times text)) text
          (rounds times workers text).flatten := by
    rw [Crew.work_fst, rounds, Outside.crew, Crew.size_gather]
    rfl
  rw [← hwork, ← Store.expression_eq_ok] at he
  rw [distributed, hsubmit]
  dsimp only
  split
  · rename_i h
    cases h.symm.trans he
  · rename_i h
    cases h.symm.trans he
    rfl

theorem endingAfter_counted (hd : ((counted times text).submission text).draws.Nodup) :
    (counted times text).endingAfter times (min workers (taskCount times text)) text
      (rounds times workers text).flatten = some (distributed times workers text).1 := by
  cases hp : Formula.parse text with
  | error cause =>
    obtain ⟨s', hs', -⟩ :=
      Coordinator.submit_eq_of_error (.initial times none) hp (stamp 0) (fun k => stamp (k + 1))
        (clock 0)
    rw [Outside.endingAfter_of_error times _ hp, distributed, hs']
  | ok f =>
    -- there is a task for every part of the formula, so the rounds are enough
    have hle : f.size ≤ taskCount times text := by
      rw [← Outside.length_idsOf_crew times workers hp hd]
      exact (Outside.staffed_crew times workers hp hd).sound.table.indexed.length_idsOf_le _
    have hall : ∀ turns ∈ rounds times workers text,
        ∀ k < max (min workers (taskCount times text)) 1, k ∈ turns := by
      intro turns ht k hk
      rw [List.eq_of_mem_replicate ht]
      exact List.mem_range.2 hk
    have hlength : 2 * f.size ≤ (rounds times workers text).length := by
      rw [rounds, List.length_replicate]
      omega
    have hsome := Outside.exists_endingAfter times _ hp hd hall hlength
    obtain ⟨e, he⟩ := (Outside.staffed_crewAfter times (min workers (taskCount times text)) hp hd
      (rounds times workers text).flatten).filed
    rw [fst_distributed_of_ok times workers hp hd he]
    rw [Outside.endingAfter_of_ok times _ hp hd he] at hsome ⊢
    split
    · rfl
    · rename_i hs
      rw [if_neg hs] at hsome
      cases hsome

end

end Evaluation

/-! ## What is printed -/

namespace CommandLine

def Exit.Alike (a b : Exit) : Prop := a.output = b.output ∧ a.code = b.code

theorem Exit.ofEnding_alike (m n : Nat) (ending : Evaluation.Ending) :
    (ofEnding m ending).Alike (ofEnding n ending) := by
  cases ending <;> exact ⟨rfl, rfl⟩

section
variable {text : String}

theorem evalDirect_of_error {cause : SyntaxError} (hp : Formula.parse text = .error cause) :
    (evalDirect text).output = "" ∧ (evalDirect text).code = 1 := by
  rw [evalDirect, Evaluation.direct, hp]
  exact ⟨rfl, rfl⟩

variable {f : Formula} (hp : Formula.parse text = .ok f)
include hp

theorem evalDirect_of_eval_ok {v : Float} (hv : f.eval = .ok v) :
    (evalDirect text).output = numberLine v ∧ (evalDirect text).code = 0 := by
  simp only [evalDirect, Evaluation.direct, hp, hv]
  exact ⟨rfl, rfl⟩

theorem evalDirect_of_eval_error {fault : Fault} (hv : f.eval = .error fault) :
    (evalDirect text).output = "" ∧ (evalDirect text).code = 1 := by
  simp only [evalDirect, Evaluation.direct, hp, hv]
  exact ⟨rfl, rfl⟩

theorem ofEnding_alike_evalDirect {times : OperationTimes} {s : Store} {out : List Task}
    (ha : s.Agrees out) (hs : s.Sound times) {i : ExpressionId} {e : Expression}
    (he : s.expressions[i]? = some e) (htext : e.text = text)
    (hfinal : e.status.isTerminal = true) :
    (Exit.ofEnding 0 (.ofExpression e)).Alike (evalDirect text) := by
  obtain ⟨hcompleted, hfailed⟩ := ha.eval_eq hs he (htext ▸ hp)
  cases hst : e.status with
  | pending => rw [hst] at hfinal; cases hfinal
  | computing => rw [hst] at hfinal; cases hfinal
  | completed =>
    obtain ⟨v, hv, heval⟩ := hcompleted hst
    obtain ⟨hout, hcode⟩ := evalDirect_of_eval_ok hp heval
    rw [Evaluation.Ending.ofExpression, hst, hv, Exit.Alike, hout, hcode]
    exact ⟨rfl, rfl⟩
  | failed =>
    obtain ⟨heval, -⟩ := hfailed hst
    obtain ⟨hout, hcode⟩ := evalDirect_of_eval_error hp heval
    rw [Evaluation.Ending.ofExpression, hst, Exit.Alike, hout, hcode]
    exact ⟨rfl, rfl⟩

end

theorem ending_alike_evalDirect {o : Evaluation.Outside} (times : OperationTimes) (workers : Nat)
    {text : String} (hd : (o.submission text).draws.Nodup) {turns : List Nat}
    {ending : Evaluation.Ending} (h : o.endingAfter times workers text turns = some ending) :
    (Exit.ofEnding 0 ending).Alike (evalDirect text) := by
  cases hp : Formula.parse text with
  | error cause =>
    rw [Evaluation.Outside.endingAfter_of_error times workers hp, Option.some.injEq] at h
    obtain ⟨hout, hcode⟩ := evalDirect_of_error hp
    rw [← h, Exit.Alike, hout, hcode]
    exact ⟨rfl, rfl⟩
  | ok f =>
    have hstaffed := Evaluation.Outside.staffed_crewAfter times workers hp hd turns
    obtain ⟨history, -, -, e, he, htext, -⟩ :=
      Evaluation.Outside.recorded_crewAfter times workers hp hd turns
    rw [Evaluation.Outside.endingAfter_of_ok times workers hp hd he] at h
    split at h
    · rename_i hs
      cases h
      exact ofEnding_alike_evalDirect hp hstaffed.agrees hstaffed.sound he htext hs
    · cases h

theorem evalByWorkers_alike (settings : Settings) {text : String} (timed : Bool)
    (hd : (Call.submitText text 0).draws.Nodup) :
    (evalByWorkers settings text timed).Alike (evalDirect text) := by
  generalize htimes : (if timed then settings.times else .instant) = times
  rw [← Evaluation.submission_counted times] at hd
  have halike := ending_alike_evalDirect times _ hd
    (Evaluation.endingAfter_counted times settings.worker.count.toNat hd)
  simp only [evalByWorkers, htimes]
  obtain ⟨hout, hcode⟩ :=
    Exit.ofEnding_alike (Evaluation.distributed times settings.worker.count.toNat text).2 0
    (Evaluation.distributed times settings.worker.count.toNat text).1
  exact ⟨hout.trans halike.1, hcode.trans halike.2⟩

/--
Whatever turns the workers take, an evaluation that comes to its end prints what direct evaluation
prints, with the same code: the value of the formula with success, or nothing with failure if the
text is no formula or divides by zero. The end stays the end. It is reached at the latest when every
worker has had a turn in each of twice as many rounds as the formula has parts, and until then some
task is at hand or with a worker.
-/
theorem evalByWorkers_alike_evalDirect (times : OperationTimes) (workers : Nat) (text : String)
    (o : Evaluation.Outside) (hd : (o.submission text).draws.Nodup) :
    (∀ turns ending, o.endingAfter times workers text turns = some ending →
      (Exit.ofEnding 0 ending).Alike (evalDirect text) ∧
        ∀ more, o.endingAfter times workers text (turns ++ more) = some ending) ∧
    (match Formula.parse text with
    | .error _ => (∀ turns, (o.endingAfter times workers text turns).isSome) ∧
        (evalDirect text).output = "" ∧ (evalDirect text).code = 1
    | .ok f =>
      (∀ rounds : List (List Nat), (∀ turns ∈ rounds, ∀ k < max workers 1, k ∈ turns) →
        2 * f.size ≤ rounds.length → (o.endingAfter times workers text rounds.flatten).isSome) ∧
      (∀ turns, Crew.Unstalled (o.crew times workers text).state.coordinator
        ((o.crew times workers text).calls o.clock turns) o.id (f.plan times o.id o.stamps)
        (o.crewAfter times workers text turns)) ∧
      match f.eval with
      | .ok v => (evalDirect text).output = numberLine v ∧ (evalDirect text).code = 0
      | .error fault => fault = .divisionByZero ∧ (evalDirect text).output = "" ∧
        (evalDirect text).code = 1) ∧
    ∀ settings timed, (Call.submitText text 0).draws.Nodup →
      (evalByWorkers settings text timed).Alike (evalDirect text) := by
  refine ⟨fun turns ending h => ⟨ending_alike_evalDirect times workers hd h, ?_⟩, ?_,
    fun settings timed hd' => ?_⟩
  · exact Evaluation.Outside.endingAfter_append times workers hd h
  · split
    · rename_i cause hp
      refine ⟨fun turns => ?_, evalDirect_of_error hp⟩
      rw [Evaluation.Outside.endingAfter_of_error times workers hp]
      rfl
    · rename_i f hp
      refine ⟨fun rounds => Evaluation.Outside.exists_endingAfter times workers hp hd,
        Evaluation.Outside.unstalled times workers hp hd, ?_⟩
      split
      · rename_i v hv
        exact evalDirect_of_eval_ok hp hv
      · rename_i fault hv
        exact ⟨Formula.eval_eq_error hv, evalDirect_of_eval_error hp hv⟩
  · exact evalByWorkers_alike settings timed hd'

/-- Two workers, of whom the second begins, work out a quotient. -/
theorem evalByWorkers_alike_evalDirect_of_quotient :
    let o : Evaluation.Outside :=
      ⟨Evaluation.stamp 9, Evaluation.stamp, Evaluation.clock 0, Evaluation.clock, 0⟩
    o.endingAfter .instant 2 "8/(1+3)" [1, 0, 1, 0, 0, 1] = some (.value 2.0) ∧
      (evalDirect "8/(1+3)").output = numberLine 2.0 ∧
      (o.endingAfter .instant 2 "8/(1+3)" (List.replicate 10 [0, 1]).flatten).isSome ∧
      ∀ settings timed, (evalByWorkers settings "8/(1+3)" timed).Alike (evalDirect "8/(1+3)") := by
  intro o
  obtain ⟨halike, hends, hrun⟩ := evalByWorkers_alike_evalDirect .instant 2 "8/(1+3)" o (by decide)
  have hending : o.endingAfter .instant 2 "8/(1+3)" [1, 0, 1, 0, 0, 1] = some (.value 2.0) := by
    decide +kernel
  have hp : Formula.parse "8/(1+3)" =
      .ok (.binary .div (.number 8.0) (.binary .add (.number 1.0) (.number 3.0))) := by rfl
  rw [hp] at hends
  obtain ⟨⟨houtput, -⟩, -⟩ := halike _ _ hending
  refine ⟨hending, houtput.symm, hends.1 _ (by decide) (by decide), fun settings timed => ?_⟩
  exact hrun settings timed (by decide)

end CommandLine

end Reckoner
