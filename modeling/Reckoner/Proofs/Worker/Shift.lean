import Reckoner.Worker.Script
import Reckoner.Worker.Shift
import Mathlib.Data.List.Basic

/-!
# Reports of a shift

A step of a worker hears an answer, sends what it holds, or does neither (`Phase.step_account`). So
whenever the workers are told to stop, what is due for the answers that were given has been sent or
is held by one worker, each once. A worker that is alone sends in the order of the answers, and if
it is told to stop late enough it holds nothing.
-/

namespace Reckoner

/-- What is to be sent for the answer: a result or an error, under the identifier of the task. -/
def Reply.due? : Reply → Option TaskResult
  | .nothing => none
  | .fault _ => none
  | .task a =>
    match a.operation.apply a.left a.right with
    | .ok value => some { id := a.id, result := some value, error := none }
    | .error cause => some { id := a.id, result := none, error := some cause.message }

theorem Reply.due?_task (a : Assignment) : (Reply.task a).due? = some a.work := by
  simp only [due?, Assignment.work, Assignment.compute]
  cases a.operation.apply a.left a.right <;> rfl

namespace Shift

variable {σ : Type}

/-- What the worker has yet to send, or would have had to send for the task that it dropped. -/
def Phase.held? : Phase → Option TaskResult
  | .ready => none
  | .resting => none
  | .working a => some a.work
  | .reporting result => some result
  | .ended dropped => dropped.map Assignment.work

def held (phases : List Phase) : List TaskResult := phases.filterMap Phase.held?

/-! ## Steps -/

theorem fetch_account (refused : List TaskId) (cut : Bool) (s : Script) :
    ∃ heard, s.replies = heard ++ (Phase.ready.step (Script.source refused) false cut s).2.replies ∧
      (Phase.ready.step (Script.source refused) false cut s).2.received = s.received ∧
      (Phase.ready.step (Script.source refused) false cut s).1.held?.toList =
        heard.filterMap Reply.due? := by
  obtain ⟨replies, received⟩ := s
  cases replies with
  | nil => exact ⟨[], rfl, rfl, rfl⟩
  | cons reply rest =>
    refine ⟨[reply], ?_⟩
    cases reply with
    | nothing => exact ⟨rfl, rfl, rfl⟩
    | fault cause => exact ⟨rfl, rfl, rfl⟩
    | task a => exact ⟨rfl, rfl, by rw [List.filterMap_cons, Reply.due?_task]; rfl⟩

/--
What has been sent, and then what is held, grows by what is due for the answers that the step hears.
-/
theorem Phase.step_account (refused : List TaskId) (stopping cut : Bool) (p : Phase) (s : Script) :
    ∃ heard, s.replies = heard ++ (p.step (Script.source refused) stopping cut s).2.replies ∧
      (p.step (Script.source refused) stopping cut s).2.received.reverse ++
          (p.step (Script.source refused) stopping cut s).1.held?.toList =
        s.received.reverse ++ p.held?.toList ++ heard.filterMap Reply.due? := by
  cases p with
  | ready =>
    cases stopping with
    | true => exact ⟨[], rfl, (List.append_nil _).symm⟩
    | false =>
      obtain ⟨heard, hreplies, hreceived, hheld⟩ := fetch_account refused cut s
      exact ⟨heard, hreplies, by rw [hreceived, hheld]; simp [held?]⟩
  | resting =>
    refine ⟨[], rfl, ?_⟩
    simp only [step]
    cases lasts stopping cut <;> simp [held?]
  | working a =>
    refine ⟨[], rfl, ?_⟩
    simp only [step]
    cases lasts stopping cut <;> simp [held?]
  | reporting result => exact ⟨[], rfl, by simp [step, held?, Script.source, Script.send]⟩
  | ended dropped => exact ⟨[], rfl, (List.append_nil _).symm⟩

theorem Phase.step_ne_ended (source : TaskSource σ) (cut : Bool) {p : Phase} (s : σ)
    (h : ∀ d, p ≠ .ended d) (d : Option Assignment) : (p.step source false cut s).1 ≠ .ended d := by
  cases p with
  | ready =>
    simp only [step, Bool.false_eq_true, if_false]
    split <;> exact Phase.noConfusion
  | resting => exact Phase.noConfusion
  | working a => exact Phase.noConfusion
  | reporting result => exact Phase.noConfusion
  | ended dropped => exact (h dropped rfl).elim

theorem after_of_getElem? {source : TaskSource σ} {shift : Shift σ} {k : Nat} {p : Phase}
    {cut : Bool} (h : shift.phases[k]? = some p) : shift.after source (.step k cut) =
      { shift with
        phases := shift.phases.set k (p.step source shift.stopping cut shift.state).1
        state := (p.step source shift.stopping cut shift.state).2 } := by
  simp only [after, h]

theorem after_of_none {source : TaskSource σ} {shift : Shift σ} {k : Nat} {cut : Bool}
    (h : shift.phases[k]? = none) : shift.after source (.step k cut) = shift := by
  simp only [after, h]

theorem run_append (source : TaskSource σ) (shift : Shift σ) (events more : List Event) :
    shift.run source (events ++ more) = (shift.run source events).run source more :=
  List.foldl_append

/-- A property of shifts that every event preserves holds at the end if it holds at the start. -/
theorem run_induction {source : TaskSource σ} {P : Shift σ → Prop}
    (hafter : ∀ shift event, P shift → P (shift.after source event)) {shift : Shift σ} (h : P shift)
    (events : List Event) : P (shift.run source events) := by
  induction events generalizing shift with
  | nil => exact h
  | cons event events ih => exact ih (hafter shift event h)

/-! ## Nobody leaves before the call -/

def Attended (shift : Shift σ) : Prop := shift.stopping = false → ∀ d, .ended d ∉ shift.phases

theorem Attended.gather (n : Nat) (s : σ) : (gather n s).Attended :=
  fun _ _ hmem => Phase.noConfusion (List.eq_of_mem_replicate hmem)

theorem Attended.after {shift : Shift σ} (h : shift.Attended) (source : TaskSource σ)
    (event : Event) : (shift.after source event).Attended := by
  cases event with
  | stop => exact fun hstop => Bool.noConfusion hstop
  | step k cut =>
    cases hk : shift.phases[k]? with
    | none => rwa [after_of_none hk]
    | some p =>
      rw [after_of_getElem? hk]
      intro hstop d hmem
      have hended := h hstop
      have hp : ∀ d, p ≠ .ended d := fun d hd => hended d (hd ▸ List.mem_of_getElem? hk)
      obtain hmem | hmem := List.mem_or_eq_of_mem_set hmem
      · exact hended d hmem
      · rw [show shift.stopping = false from hstop] at hmem
        exact Phase.step_ne_ended source cut shift.state hp d hmem.symm

theorem Attended.run {shift : Shift σ} (h : shift.Attended) (source : TaskSource σ)
    (events : List Event) : (shift.run source events).Attended :=
  run_induction (fun _ event h => h.after source event) h events

/-! ## Accounts -/

/--
The answers that have been given are accounted for: what is due for them has been sent or is held.
-/
def Accounted (replies : List Reply) (shift : Shift Script) : Prop :=
  ∃ played, replies = played ++ shift.state.replies ∧
    (shift.state.received.reverse ++ held shift.phases).Perm (played.filterMap Reply.due?)

theorem held_replicate_ready (n : Nat) : held (List.replicate n .ready) = [] := by
  rw [held, List.filterMap_eq_nil_iff]
  intro p hp
  rw [List.eq_of_mem_replicate hp]
  rfl

theorem Accounted.gather (replies : List Reply) (n : Nat) :
    Accounted replies (gather n ⟨replies, []⟩) :=
  ⟨[], rfl, by simp [Shift.gather, held_replicate_ready]⟩

/-- What the others hold stays the same when one worker takes a step. -/
theorem exists_others {phases : List Phase} {k : Nat} {p : Phase} (h : phases[k]? = some p) :
    ∃ others, (held phases).Perm (p.held?.toList ++ others) ∧
      ∀ p', (held (phases.set k p')).Perm (p'.held?.toList ++ others) := by
  obtain ⟨hk, rfl⟩ := List.getElem?_eq_some_iff.1 h
  have hsplit : ∀ p', held (phases.set k p') =
      held (phases.take k) ++ p'.held?.toList ++ held (phases.drop (k + 1)) := by
    intro p'
    rw [List.set_eq_take_append_cons_drop, if_pos hk, held, List.filterMap_append,
      List.filterMap_cons]
    cases hp' : p'.held? <;> simp [held]
  have hall : ∀ p', (held (phases.set k p')).Perm
      (p'.held?.toList ++ (held (phases.take k) ++ held (phases.drop (k + 1)))) := by
    intro p'
    rw [hsplit, ← List.append_assoc]
    exact List.perm_append_comm.append_right _
  refine ⟨_, ?_, hall⟩
  have hself := hall phases[k]
  rwa [List.set_getElem_self] at hself

theorem Accounted.after {replies : List Reply} {shift : Shift Script} (h : Accounted replies shift)
    (refused : List TaskId) (event : Event) :
    Accounted replies (shift.after (Script.source refused) event) := by
  cases event with
  | stop => exact h
  | step k cut =>
    cases hk : shift.phases[k]? with
    | none => rwa [after_of_none hk]
    | some p =>
      obtain ⟨played, hplayed, hperm⟩ := h
      obtain ⟨heard, hheard, haccount⟩ := p.step_account refused shift.stopping cut shift.state
      obtain ⟨others, hothers, hset⟩ := exists_others hk
      rw [after_of_getElem? hk]
      generalize p.step (Script.source refused) shift.stopping cut shift.state =
        next at hheard haccount ⊢
      refine ⟨played ++ heard, by rw [hplayed, hheard, List.append_assoc], ?_⟩
      calc next.2.received.reverse ++ held (shift.phases.set k next.1)
        _ |>.Perm (next.2.received.reverse ++ (next.1.held?.toList ++ others)) :=
          (hset next.1).append_left _
        _ = shift.state.received.reverse ++ p.held?.toList ++ heard.filterMap Reply.due? ++
          others := by
          rw [← List.append_assoc, haccount]
        _ |>.Perm (shift.state.received.reverse ++ (p.held?.toList ++ others) ++
          heard.filterMap Reply.due?) := by
          simp only [List.append_assoc]
          exact (List.perm_append_comm.append_left _).append_left _
        _ |>.Perm (played.filterMap Reply.due? ++ heard.filterMap Reply.due?) :=
          (((hothers.symm).append_left _).trans hperm).append_right _
        _ = (played ++ heard).filterMap Reply.due? := List.filterMap_append.symm

theorem Accounted.run {replies : List Reply} {shift : Shift Script} (h : Accounted replies shift)
    (refused : List TaskId) (events : List Event) :
    Accounted replies (shift.run (Script.source refused) events) :=
  run_induction (fun _ event h => h.after refused event) h events

/-! ## One worker -/

def InOrder (replies : List Reply) (shift : Shift Script) : Prop :=
  ∃ p played, shift.phases = [p] ∧ replies = played ++ shift.state.replies ∧
    shift.state.received.reverse ++ p.held?.toList = played.filterMap Reply.due?

theorem InOrder.gather (replies : List Reply) : InOrder replies (gather 1 ⟨replies, []⟩) :=
  ⟨.ready, [], rfl, rfl, rfl⟩

theorem InOrder.after {replies : List Reply} {shift : Shift Script} (h : InOrder replies shift)
    (refused : List TaskId) (event : Event) :
    InOrder replies (shift.after (Script.source refused) event) := by
  cases event with
  | stop => exact h
  | step k cut =>
    obtain ⟨p, played, hphases, hplayed, hsent⟩ := h
    cases k with
    | succ k =>
      rw [after_of_none (by rw [hphases]; rfl)]
      exact ⟨p, played, hphases, hplayed, hsent⟩
    | zero =>
      obtain ⟨heard, hheard, haccount⟩ := p.step_account refused shift.stopping cut shift.state
      rw [after_of_getElem? (p := p) (by rw [hphases]; rfl), hphases]
      refine ⟨_, played ++ heard, rfl, by rw [hplayed, hheard, List.append_assoc], ?_⟩
      rw [haccount, hsent, List.filterMap_append]

theorem InOrder.run {replies : List Reply} {shift : Shift Script} (h : InOrder replies shift)
    (refused : List TaskId) (events : List Event) :
    InOrder replies (shift.run (Script.source refused) events) :=
  run_induction (fun _ event h => h.after refused event) h events

def Phase.left (p : Phase) (s : Script) : Nat :=
  3 * s.replies.length +
    match p with
    | .ready => 0
    | .resting => min s.replies.length 1
    | .working _ => 2
    | .reporting _ => 1
    | .ended _ => 0

theorem Phase.left_step (refused : List TaskId) (cut : Bool) {p : Phase} (s : Script)
    (h : ∀ d, p ≠ .ended d) :
    (p.step (Script.source refused) false cut s).1.left
      (p.step (Script.source refused) false cut s).2 ≤
      p.left s - 1 := by
  obtain ⟨replies, received⟩ := s
  cases p with
  | ready =>
    cases replies with
    | nil => exact Nat.le_refl _
    | cons reply rest =>
      cases reply <;>
      · simp only [step, left, Script.source, Script.fetch, Bool.false_eq_true, if_false,
          List.length_cons]
        omega
  | resting =>
    simp only [step, lasts, Bool.false_and, Bool.not_false, if_true, left]
    omega
  | working a =>
    simp only [step, lasts, Bool.false_and, Bool.not_false, if_true, left]
    omega
  | reporting result =>
    simp only [step, left, Script.source, Script.send]
    omega
  | ended dropped => exact (h dropped rfl).elim

theorem Phase.left_eq_zero {p : Phase} {s : Script} (h : ∀ d, p ≠ .ended d) (hleft : p.left s = 0) :
    s.replies = [] ∧ p.held? = none := by
  unfold left at hleft
  refine ⟨List.eq_nil_of_length_eq_zero (by omega), ?_⟩
  cases p with
  | ready => rfl
  | resting => rfl
  | working a => simp at hleft
  | reporting result => simp at hleft
  | ended dropped => exact (h dropped rfl).elim

theorem gather_one (s : σ) : gather 1 s = ⟨[.ready], false, s⟩ := rfl

theorem run_step_lone (source : TaskSource σ) (p : Phase) (stopping cut : Bool) (s : σ)
    (events : List Event) :
    run source ⟨[p], stopping, s⟩ (.step 0 cut :: events) =
      run source ⟨[(p.step source stopping cut s).1], stopping, (p.step source stopping cut s).2⟩
        events := rfl

theorem run_lone (refused : List TaskId) (cuts : List Bool) {p : Phase} {s : Script}
    (h : ∀ d, p ≠ .ended d) :
    ∃ p' s', run (Script.source refused) ⟨[p], false, s⟩ (cuts.map (.step 0)) = ⟨[p'], false, s'⟩ ∧
      (∀ d, p' ≠ .ended d) ∧ p'.left s' ≤ p.left s - cuts.length := by
  induction cuts generalizing p s with
  | nil => exact ⟨p, s, rfl, h, Nat.le_refl _⟩
  | cons cut cuts ih =>
    have hstep := p.left_step refused cut s h
    obtain ⟨p', s', hrun, hp', hleft⟩ := ih (s := (p.step (Script.source refused) false cut s).2)
      (Phase.step_ne_ended (Script.source refused) cut s h)
    refine ⟨p', s', ?_, hp', ?_⟩
    · rw [List.map_cons, run_step_lone, hrun]
    · rw [List.length_cons]
      omega

def Phase.toStop : Phase → Nat
  | .ready => 1
  | .resting => 2
  | _ => 0

theorem Phase.toStop_le (p : Phase) : p.toStop ≤ 2 := by
  cases p <;> simp [toStop]

theorem Phase.stopping_step (source : TaskSource σ) (cut : Bool) {p : Phase} (s : σ)
    (h : p.held? = none) :
    (p.step source true cut s).2 = s ∧ (p.step source true cut s).1.held? = none ∧
      (p.step source true cut s).1.toStop ≤ p.toStop - 1 := by
  cases p with
  | ready => exact ⟨rfl, rfl, Nat.le_refl _⟩
  | resting => cases cut <;> exact ⟨rfl, rfl, by simp [step, lasts, toStop]⟩
  | working a => nomatch h
  | reporting result => nomatch h
  | ended dropped => exact ⟨rfl, h, Nat.le_refl _⟩

theorem Phase.eq_ended {p : Phase} (h : p.held? = none) (hstop : p.toStop = 0) :
    p = .ended none := by
  cases p with
  | ready => exact Nat.noConfusion hstop
  | resting => exact Nat.noConfusion hstop
  | working a => nomatch h
  | reporting result => nomatch h
  | ended dropped => rw [Option.map_eq_none_iff.1 h]

theorem run_stopping (source : TaskSource σ) (cuts : List Bool) {p : Phase} {s : σ}
    (h : p.held? = none) :
    ∃ p', run source ⟨[p], true, s⟩ (cuts.map (.step 0)) = ⟨[p'], true, s⟩ ∧ p'.held? = none ∧
      p'.toStop ≤ p.toStop - cuts.length := by
  induction cuts generalizing p with
  | nil => exact ⟨p, rfl, h, Nat.le_refl _⟩
  | cons cut cuts ih =>
    obtain ⟨hstate, hheld, hstop⟩ := p.stopping_step source cut s h
    obtain ⟨p', hrun, hp', hleft⟩ := ih hheld
    refine ⟨p', ?_, hp', ?_⟩
    · rw [List.map_cons, run_step_lone, hstate, hrun]
    · rw [List.length_cons]
      omega

def Done (shift : Shift Script) : Prop := shift.state.replies = [] ∧ held shift.phases = []

theorem done_of_length_le (replies : List Reply) (refused : List TaskId) (cuts : List Bool)
    (h : 3 * replies.length ≤ cuts.length) :
    ((gather 1 ⟨replies, []⟩).run (Script.source refused) (cuts.map (.step 0))).Done := by
  obtain ⟨p, s, hrun, hp, hleft⟩ :=
    run_lone refused cuts (p := .ready) (s := ⟨replies, []⟩) (fun d => Phase.noConfusion)
  have hzero : p.left s = 0 := by
    simp only [Phase.left] at hleft ⊢
    omega
  obtain ⟨hreplies, hheld⟩ := Phase.left_eq_zero hp hzero
  rw [gather_one, hrun]
  exact ⟨hreplies, by rw [held, List.filterMap_cons, hheld]; rfl⟩

theorem InOrder.of_done {replies : List Reply} {shift : Shift Script} (h : InOrder replies shift)
    (hdone : shift.Done) :
    ∃ p, p.held? = none ∧ shift.phases = [p] ∧
      shift.state = ⟨[], (replies.filterMap Reply.due?).reverse⟩ := by
  obtain ⟨phases, stopping, ⟨rest, received⟩⟩ := shift
  obtain ⟨p, played, rfl, hplayed, hsent⟩ := h
  obtain ⟨rfl, hheld⟩ := hdone
  have hp : p.held? = none := List.filterMap_eq_nil_iff.1 hheld p (List.mem_singleton_self p)
  rw [hp, Option.toList_none, List.append_nil] at hsent
  refine ⟨p, hp, rfl, ?_⟩
  rw [hplayed, List.append_nil, ← hsent, List.reverse_reverse]

/--
If the call to stop comes when a worker that is alone is done, nothing more happens, and the worker
leaves.
-/
theorem run_to_stop (replies : List Reply) (refused : List TaskId) (events : List Event)
    (h : ((gather 1 ⟨replies, []⟩).run (Script.source refused) events).Done) (cuts : List Bool) :
    ∃ p, (gather 1 ⟨replies, []⟩).run (Script.source refused)
      (events ++ .stop :: cuts.map (.step 0)) =
        ⟨[p], true, ⟨[], (replies.filterMap Reply.due?).reverse⟩⟩ ∧
      (2 ≤ cuts.length → p = .ended none) := by
  obtain ⟨q, hheld, hphases, hstate⟩ := ((InOrder.gather replies).run refused events).of_done h
  obtain ⟨p, hcuts, hp, hstop⟩ := run_stopping (Script.source refused) cuts hheld
  refine ⟨p, ?_, fun hlength => Phase.eq_ended hp ?_⟩
  · rw [run_append, ← hcuts, ← hstate, ← hphases]
    rfl
  · have := q.toStop_le
    omega

/-! ## Crews -/

def phase : Worker → Phase
  | .idle => .ready
  | .busy a => .working a

def ofCrew (crew : Crew σ) : Shift σ := ⟨crew.workers.map phase, false, crew.state⟩

theorem ofCrew_gather (n : Nat) (s : σ) : ofCrew (Crew.gather n s) = gather n s := by
  rw [ofCrew, Crew.gather, List.map_replicate]
  rfl

theorem turn_of_getElem? {source : TaskSource σ} {crew : Crew σ} {k : Nat} {w : Worker}
    (h : crew.workers[k]? = some w) :
    crew.turn source k = ⟨crew.workers.set k (w.step source crew.state).1,
      (w.step source crew.state).2⟩ := by
  simp only [Crew.turn, h]

theorem run_once {source : TaskSource σ} {shift : Shift σ} {k : Nat} {p q : Phase} {s : σ}
    (h : shift.phases[k]? = some p) (hp : p.step source shift.stopping false shift.state = (q, s)) :
    shift.run source [.step k false] = { shift with
      phases := shift.phases.set k q, state := s } := by
  rw [run, List.foldl_cons, List.foldl_nil, after_of_getElem? h, hp]

theorem run_twice {source : TaskSource σ} {shift : Shift σ} {k : Nat} {p q q' : Phase} {s s' : σ}
    (h : shift.phases[k]? = some p) (hp : p.step source shift.stopping false shift.state = (q, s))
    (hq : q.step source shift.stopping false s = (q', s')) :
    shift.run source [.step k false, .step k false] =
      { shift with phases := shift.phases.set k q', state := s' } := by
  have hk := (List.getElem?_eq_some_iff.1 h).1
  rw [show [Event.step k false, .step k false] = [.step k false] ++ [.step k false] from rfl,
    run_append, run_once h hp,
    run_once (List.getElem?_set_self hk) hq, List.set_set]

/-- A turn of a crew is a step or two of a shift in which nobody is told to stop. -/
theorem exists_events_turn (source : TaskSource σ) (crew : Crew σ) (k : Nat) :
    ∃ events, .stop ∉ events ∧ (ofCrew crew).run source events = ofCrew (crew.turn source k) := by
  cases hk : crew.workers[k]? with
  | none =>
    refine ⟨[], List.not_mem_nil, ?_⟩
    simp only [Crew.turn, hk]
    rfl
  | some w =>
    have hphase : (ofCrew crew).phases[k]? = some (phase w) := by
      rw [ofCrew, List.getElem?_map, hk]; rfl
    rw [turn_of_getElem? hk, ofCrew, ofCrew, List.map_set]
    cases w with
    | busy a => exact ⟨[.step k false, .step k false], by simp, run_twice hphase rfl rfl⟩
    | idle =>
      simp only [Worker.step]
      rcases hf : source.fetch crew.state with ⟨_ | _ | a, s⟩
      · have hready : Phase.ready.step source false false crew.state = (.resting, s) := by
          rw [Phase.step, hf]; rfl
        exact ⟨[.step k false, .step k false], by simp, run_twice hphase hready rfl⟩
      · have hready : Phase.ready.step source false false crew.state = (.resting, s) := by
          rw [Phase.step, hf]; rfl
        exact ⟨[.step k false, .step k false], by simp, run_twice hphase hready rfl⟩
      · have hready : Phase.ready.step source false false crew.state = (.working a, s) := by
          rw [Phase.step, hf]; rfl
        exact ⟨[.step k false], by simp, run_once hphase hready⟩

theorem exists_events_run (source : TaskSource σ) (crew : Crew σ) (turns : List Nat) :
    ∃ events, .stop ∉ events ∧ (ofCrew crew).run source events =
      ofCrew (crew.run source turns) := by
  induction turns generalizing crew with
  | nil => exact ⟨[], List.not_mem_nil, rfl⟩
  | cons k turns ih =>
    obtain ⟨first, hfirst, hturn⟩ := exists_events_turn source crew k
    obtain ⟨rest, hrest, hrun⟩ := ih (crew.turn source k)
    refine ⟨first ++ rest, ?_, ?_⟩
    · rw [List.mem_append]
      exact not_or.2 ⟨hfirst, hrest⟩
    · rw [run_append, hturn, hrun]
      rfl

end Shift

/-! ## A crew of one -/

def Worker.left (w : Worker) (s : Script) : Nat :=
  2 * s.replies.length +
    match w with
    | .idle => 0
    | .busy _ => 1

theorem Worker.left_step (refused : List TaskId) (w : Worker) (s : Script) :
    (w.step (Script.source refused) s).1.left (w.step (Script.source refused) s).2 ≤
      w.left s - 1 := by
  obtain ⟨replies, received⟩ := s
  cases w with
  | busy a =>
    simp only [step, left, Script.source, Script.send]
    omega
  | idle =>
    cases replies with
    | nil => exact Nat.le_refl _
    | cons reply rest =>
      cases reply <;>
      · simp only [step, left, Script.source, Script.fetch, List.length_cons]
        omega

theorem Crew.gather_one {σ : Type} (s : σ) : gather 1 s = ⟨[.idle], s⟩ := rfl

theorem Crew.run_lone (refused : List TaskId) (n : Nat) (w : Worker) (s : Script) :
    ∃ w' s', Crew.run (Script.source refused) ⟨[w], s⟩ (List.replicate n 0) = ⟨[w'], s'⟩ ∧
      w'.left s' ≤ w.left s - n := by
  induction n generalizing w s with
  | zero => exact ⟨w, s, rfl, Nat.le_refl _⟩
  | succ n ih =>
    have hstep := w.left_step refused s
    obtain ⟨w', s', hrun, hleft⟩ :=
      ih (w.step (Script.source refused) s).1 (w.step (Script.source refused) s).2
    exact ⟨w', s', hrun, by omega⟩

namespace Shift

/--
A worker that is alone with a script is given the turns that it takes to send all that is due.
-/
theorem state_play (replies : List Reply) (refused : List TaskId) :
    (Script.play replies refused 1).state = ⟨[], (replies.filterMap Reply.due?).reverse⟩ := by
  have hturns : (List.replicate (2 * replies.length)
      (List.range (Crew.gather 1 (Script.mk replies [])).size)).flatten =
        List.replicate (2 * replies.length) 0 := List.flatten_replicate_singleton
  obtain ⟨w, s, hrun, hleft⟩ := Crew.run_lone refused (2 * replies.length) .idle ⟨replies, []⟩
  obtain ⟨events, -, hevents⟩ :=
    exists_events_run (Script.source refused) (Crew.gather 1 ⟨replies, []⟩)
      (List.replicate (2 * replies.length) 0)
  have horder := (InOrder.gather replies).run refused events
  rw [← ofCrew_gather, hevents, Crew.gather_one, hrun] at horder
  rw [Script.play, Crew.rounds, hturns, Crew.gather_one, hrun]
  have hzero : w.left s = 0 := by
    simp only [Worker.left] at hleft ⊢
    omega
  cases w with
  | idle =>
    have hreplies : s.replies = [] := by
      simp only [Worker.left] at hzero
      exact List.eq_nil_of_length_eq_zero (by omega)
    obtain ⟨_, _, _, hstate⟩ := horder.of_done ⟨hreplies, rfl⟩
    exact hstate
  | busy a => simp [Worker.left] at hzero

theorem accounted_run (replies : List Reply) (refused : List TaskId) (n : Nat) (turns : List Nat) :
    Accounted replies
      (ofCrew ((Crew.gather n ⟨replies, []⟩).run (Script.source refused) turns)) := by
  obtain ⟨events, -, hevents⟩ :=
    exists_events_run (Script.source refused) (Crew.gather n ⟨replies, []⟩) turns
  rw [← hevents, ofCrew_gather]
  exact (Accounted.gather replies n).run refused events

/-! ## Each task is reported once -/

/--
Of every task that the source has given, at most one report is sent, whatever the workers do and
wherever they are told to stop: it tells what is due for the task, and there is none only while a
worker has the task or if it dropped it. Nobody leaves before the call to stop. A worker that is
alone sends the reports in the order of the tasks; it needs at most three steps for an answer, and
if it is told to stop when it is done, it has sent everything that is due, and leaves within two
steps.
-/
theorem reports_each_once (replies : List Reply) (refused : List TaskId) :
    (∀ workers events,
      ((gather workers ⟨replies, []⟩).run (Script.source refused) events).Attended ∧
      Accounted replies ((gather workers ⟨replies, []⟩).run (Script.source refused) events)) ∧
    (∀ events, InOrder replies ((gather 1 ⟨replies, []⟩).run (Script.source refused) events)) ∧
    (∀ cuts : List Bool, 3 * replies.length ≤ cuts.length →
      ((gather 1 ⟨replies, []⟩).run (Script.source refused) (cuts.map (.step 0))).Done) ∧
    (∀ events, ((gather 1 ⟨replies, []⟩).run (Script.source refused) events).Done →
      ∀ cuts : List Bool,
      ∃ p, (gather 1 ⟨replies, []⟩).run (Script.source refused)
        (events ++ .stop :: cuts.map (.step 0)) =
          ⟨[p], true, ⟨[], (replies.filterMap Reply.due?).reverse⟩⟩ ∧
        (2 ≤ cuts.length → p = .ended none)) ∧
    (Script.play replies refused 1).state = ⟨[], (replies.filterMap Reply.due?).reverse⟩ ∧
    ∀ workers turns,
      Accounted replies
        (ofCrew ((Crew.gather workers ⟨replies, []⟩).run (Script.source refused) turns)) :=
  ⟨fun workers events =>
      ⟨(Attended.gather workers _).run _ events,
        (Accounted.gather replies workers).run refused events⟩,
    fun events => (InOrder.gather replies).run refused events,
    done_of_length_le replies refused,
    run_to_stop replies refused,
    state_play replies refused,
    accounted_run replies refused⟩

theorem reports_each_once_of_refused :
    let sum : Assignment := ⟨Id.ofNat 1, 2.0, 3.0, .addition, 0⟩
    let quotient : Assignment := ⟨Id.ofNat 2, 1.0, 0.0, .division, 0⟩
    let literal : Assignment := ⟨Id.ofNat 3, 5.0, 0.0, .value, 0⟩
    let replies : List Reply :=
      [.fault .divisionByZero, .task sum, .nothing, .task quotient, .task literal]
    let reports : List TaskResult :=
      [.completed literal.id 5.0, quotient.work, .completed sum.id (2.0 + 3.0)]
    (Script.play replies [sum.id] 1).state = ⟨[], reports⟩ ∧
      (gather 1 ⟨replies, []⟩).run (Script.source [sum.id])
          ((List.replicate 15 false).map (.step 0) ++ .stop :: [true, false].map (.step 0)) =
        ⟨[.ended none], true, ⟨[], reports⟩⟩ := by
  intro sum quotient literal replies reports
  have hdue : (replies.filterMap Reply.due?).reverse = reports := by
    simp only [replies, List.filterMap_cons, Reply.due?_task]
    rfl
  obtain ⟨-, -, hdone, hstop, hplay, -⟩ := reports_each_once replies [sum.id]
  obtain ⟨p, hrun, hp⟩ := hstop _ (hdone (List.replicate 15 false) (by decide)) [true, false]
  rw [hdue] at hplay hrun
  rw [hp (by decide)] at hrun
  exact ⟨hplay, hrun⟩

end Shift

end Reckoner
