import Reckoner.Proofs.Agreement
import Reckoner.Proofs.History
import Reckoner.Proofs.Lease
import Reckoner.Proofs.Progress
import Mathlib.Algebra.Order.BigOperators.Group.List
import Mathlib.Algebra.Order.Ring.Nat

/-!
# Local crews

Whatever turns the workers of a crew take, they make a run of calls of its coordinator, with honest
reports. A crew that serves one expression holds exactly the tasks that are processing (`Staffed`).
A turn does nothing, or takes its task one step on (`load`); and it can do nothing only if its
worker has no task and gets none.
-/

namespace Reckoner

/-! ## Assignments -/

namespace Assignment

def report (a : Assignment) : Report :=
  match a.compute with
  | .ok result => .completed result
  | .error fault => .failed fault.message

theorem report?_work (a : Assignment) : a.work.report? = .ok a.report := by
  unfold work report
  cases a.compute <;> rfl

theorem id_work (a : Assignment) : a.work.id = a.id := by
  unfold work
  cases a.compute <;> rfl

end Assignment

theorem TaskTable.Ready.answer?_eq {table : TaskTable} {t l r : Task} {op : Operator} {a b : Float}
    (h : table.Ready t op l r a b) : t.answer? = some (Assignment.ofTask t).report := by
  rw [Task.answer?, h.operandValues_eq, h.ofTask_eq, Option.map_some, Assignment.report,
    Assignment.compute,
    h.operation]
  dsimp only
  cases hv : op.operation.apply a b with
  | ok v => rfl
  | error fault =>
    cases Formula.apply_eq_error hv
    rfl

theorem Coordinator.receive_work (c : Coordinator) (a : Assignment) (now : Instant) :
    (c.receive a.work now).2 = (c.report a.id a.report now).2 := by
  rw [receive, a.report?_work, a.id_work]

/--
The coordinator takes no task back, and has had honest reports only, for the tasks in `out` that it
gave away.
-/
structure Coordinator.Serves (c : Coordinator) (out : List Task) : Prop where
  lease : c.term = none
  sound : c.store.Sound c.times
  proper : c.store.tasks.Proper
  agrees : c.store.Agrees out

namespace Coordinator.Serves

theorem initial (times : OperationTimes) : (initial times none).Serves [] :=
  ⟨rfl, .empty times, .empty, .empty⟩

theorem after {c : Coordinator} {out : List Task} (h : c.Serves out) (call : Call)
    (hf : call.Fresh c.store) (hh : call.IsHonest out) :
    (c.after call).Serves (out ++ (c.handsOut call).toList) where
  lease := (term_after c call).trans h.lease
  sound := by
    rw [times_after]
    exact sound_after h.sound hf
  proper := proper_after h.proper call
  agrees := agrees_after h.agrees h.sound h.proper hf hh

theorem after_of_handsOut_eq_none {c : Coordinator} {out : List Task} (h : c.Serves out)
    (call : Call) (hn : c.handsOut call = none) (hf : call.Fresh c.store) (hh : call.IsHonest out) :
    (c.after call).Serves out := by
  have hafter := h.after call hf hh
  rwa [hn, Option.toList_none, List.append_nil] at hafter

end Coordinator.Serves

/-! ## What the workers hold -/

structure TaskTable.HeldBy (table : TaskTable) (workers : List Worker) : Prop where
  busy : ∀ {k : Nat} {a}, workers[k]? = some (.busy a) → ∃ t, table.get? a.id = some t ∧
    t.status = .processing
  alone : ∀ {j k : Nat} {a b}, workers[j]? = some (.busy a) → workers[k]? = some (.busy b) →
    a.id = b.id → j = k
  held : ∀ {i t}, table.get? i = some t → t.status = .processing →
    ∃ (k : Nat) (a : Assignment), workers[k]? = some (.busy a) ∧ a.id = i

namespace TaskTable.HeldBy

variable {table table' : TaskTable} {workers : List Worker} {k : Nat}

theorem getElem?_set {workers : List Worker} {k j : Nat} {w w' : Worker}
    (hk : workers[k]? = some w) :
    (workers.set k w')[j]? = if k = j then some w' else workers[j]? := by
  obtain ⟨hlt, -⟩ := List.getElem?_eq_some_iff.1 hk
  rw [List.getElem?_set]
  simp only [hlt, if_true]

theorem put (h : table.HeldBy workers) (hk : workers[k]? = some .idle) {u t : Task}
    (hu : table.get? u.id = some u) (hp : u.status = .pending) (hid : t.id = u.id)
    (ht : t.status = .processing) : (table.put u t).HeldBy (workers.set k (.busy (.ofTask t))) := by
  -- what the others hold is processing, so it is not what was waiting
  have hother : ∀ {j : Nat} {a}, workers[j]? = some (.busy a) → t.id ≠ a.id := by
    intro j a ha e
    obtain ⟨v, hv, hvs⟩ := h.busy ha
    rw [← e, hid, hu] at hv
    cases hv
    rw [hp] at hvs
    cases hvs
  constructor
  · intro j a ha
    rw [getElem?_set hk] at ha
    split at ha
    · cases ha
      exact ⟨t, get?_put_self table u t, ht⟩
    · obtain ⟨v, hv, hvs⟩ := h.busy ha
      exact ⟨v, by rw [get?_put, if_neg (hother ha), hv], hvs⟩
  · intro i j a b ha hb e
    rw [getElem?_set hk] at ha hb
    split at ha
    · split at hb
      · exact (‹k = i›).symm.trans ‹k = j›
      · cases ha
        exact absurd e (hother hb)
    · split at hb
      · cases hb
        exact absurd e.symm (hother ha)
      · exact h.alone ha hb e
  · intro i v hv hvs
    rw [get?_put] at hv
    split at hv
    · rename_i e
      exact ⟨k, .ofTask t, by rw [getElem?_set hk, if_pos rfl], e⟩
    · obtain ⟨j, a, ha, hid⟩ := h.held hv hvs
      refine ⟨j, a, ?_, hid⟩
      rw [getElem?_set hk, if_neg, ha]
      rintro rfl
      cases hk.symm.trans ha

theorem release (h : table.HeldBy workers) {a : Assignment} (hk : workers[k]? = some (.busy a))
    (hother : ∀ i, a.id ≠ i → (table'.get? i).map Task.status = (table.get? i).map Task.status)
    (hdone : ∀ t, table'.get? a.id = some t → t.status ≠ .processing) :
    table'.HeldBy (workers.set k .idle) := by
  constructor
  · intro j b hb
    rw [getElem?_set hk] at hb
    split at hb
    · cases hb
    · rename_i hne
      obtain ⟨v, hv, hvs⟩ := h.busy hb
      have hstatus := hother b.id fun e => hne (h.alone hk hb e)
      rw [hv] at hstatus
      obtain ⟨u, hu, e⟩ := Option.map_eq_some_iff.1 hstatus
      exact ⟨u, hu, e.trans hvs⟩
  · intro i j b d hb hd e
    rw [getElem?_set hk] at hb hd
    split at hb
    · cases hb
    · split at hd
      · cases hd
      · exact h.alone hb hd e
  · intro i v hv hvs
    have hne : a.id ≠ i := by
      rintro rfl
      exact hdone v hv hvs
    have hstatus := hother i hne
    rw [hv] at hstatus
    obtain ⟨u, hu, e⟩ := Option.map_eq_some_iff.1 hstatus.symm
    obtain ⟨j, b, hb, hid⟩ := h.held hu (e.trans hvs)
    refine ⟨j, b, ?_, hid⟩
    rw [getElem?_set hk, if_neg, hb]
    rintro rfl
    cases hk.symm.trans hb
    exact hne hid

end TaskTable.HeldBy

/-! ## What is left to do -/

def TaskStatus.load : TaskStatus → Nat
  | pending => 2
  | processing => 1
  | completed => 0
  | failed => 0

namespace TaskTable

def loadOf (table : TaskTable) (i : TaskId) : Nat :=
  (((table.get? i).map Task.status).map TaskStatus.load).getD 0

def load (table : TaskTable) (owner : ExpressionId) : Nat :=
  ((table.idsOf owner).map table.loadOf).sum

theorem loadOf_eq {table : TaskTable} {i : TaskId} {status : TaskStatus}
    (h : (table.get? i).map Task.status = some status) : table.loadOf i = status.load := by
  rw [loadOf, h]
  rfl

theorem loadOf_congr {table table' : TaskTable} {i : TaskId}
    (h : (table'.get? i).map Task.status = (table.get? i).map Task.status) :
    table'.loadOf i = table.loadOf i := by
  rw [loadOf, loadOf, h]

theorem load_le (table : TaskTable) (owner : ExpressionId) :
    table.load owner ≤ 2 * (table.idsOf owner).length := by
  have hle : ∀ n ∈ (table.idsOf owner).map table.loadOf, n ≤ 2 := by
    intro n hn
    obtain ⟨i, -, rfl⟩ := List.mem_map.1 hn
    unfold loadOf
    cases table.get? i with
    | none => exact Nat.zero_le 2
    | some t => cases hs : t.status <;> simp [hs, TaskStatus.load]
  have hsum := List.sum_le_card_nsmul _ 2 hle
  rw [List.length_map] at hsum
  exact hsum.trans_eq (Nat.mul_comm _ 2)

theorem load_lt {table table' : TaskTable} {owner : ExpressionId}
    (hids : table'.idsOf owner = table.idsOf owner) (hle : ∀ i, table'.loadOf i ≤ table.loadOf i)
    {i : TaskId} (hi : i ∈ table.idsOf owner) (hlt : table'.loadOf i < table.loadOf i) :
    table'.load owner < table.load owner := by
  rw [load, load, hids]
  exact List.sum_lt_sum _ _ (fun j _ => hle j) ⟨i, hi, hlt⟩

end TaskTable

/-! ## Turns as calls -/

namespace Crew

def call? (clock : Nat → Instant) (crew : Crew Coordinator.Clocked) (k : Nat) : Option Call :=
  crew.workers[k]?.map fun
    | .idle => .nextTask (clock crew.state.reads) (clock (crew.state.reads + 1))
    | .busy a => .report a.id a.report (clock crew.state.reads)

def calls (clock : Nat → Instant) (crew : Crew Coordinator.Clocked) : List Nat → List Call
  | [] => []
  | k :: rest => (crew.call? clock k).toList ++
    (crew.turn (Coordinator.source clock) k).calls clock rest

variable {clock : Nat → Instant} {crew : Crew Coordinator.Clocked} {k : Nat}

theorem turn_of_none (h : crew.workers[k]? = none) :
    crew.turn (Coordinator.source clock) k = crew := by
  rw [turn, h]

theorem turn_of_idle (h : crew.workers[k]? = some .idle) {handed : Option Task} {c : Coordinator}
    (hn : crew.state.coordinator.nextTask (clock crew.state.reads) (clock (crew.state.reads + 1)) =
      (handed, c)) :
    crew.turn (Coordinator.source clock) k =
      ⟨crew.workers.set k (handed.elim .idle fun t => .busy (.ofTask t)),
        ⟨c, crew.state.reads + 2⟩⟩ := by
  simp only [turn, h, Worker.step, Coordinator.source, Coordinator.fetch, hn]
  cases handed <;> rfl

theorem turn_of_busy {a : Assignment} (h : crew.workers[k]? = some (.busy a)) :
    crew.turn (Coordinator.source clock) k = ⟨crew.workers.set k .idle,
      ⟨(crew.state.coordinator.report a.id a.report (clock crew.state.reads)).2,
        crew.state.reads + 1⟩⟩ := by
  rw [← Coordinator.receive_work]
  simp only [turn, h, Worker.step, Coordinator.source]

theorem coordinator_turn (clock : Nat → Instant) (crew : Crew Coordinator.Clocked) (k : Nat) :
    (crew.turn (Coordinator.source clock) k).state.coordinator =
      crew.state.coordinator.run (crew.call? clock k).toList := by
  cases h : crew.workers[k]? with
  | none =>
    rw [turn_of_none h, call?, h]
    rfl
  | some w =>
    rw [call?, h]
    cases w with
    | idle =>
      rw [turn_of_idle h rfl]
      rfl
    | busy a =>
      rw [turn_of_busy h]
      rfl

theorem coordinator_run (clock : Nat → Instant) (crew : Crew Coordinator.Clocked)
    (turns : List Nat) :
    (crew.run (Coordinator.source clock) turns).state.coordinator =
      crew.state.coordinator.run (crew.calls clock turns) := by
  induction turns generalizing crew with
  | nil => rfl
  | cons k rest ih =>
    rw [calls, Coordinator.run_append, ← coordinator_turn, ← ih]
    rfl

theorem size_turn {σ : Type} (source : TaskSource σ) (crew : Crew σ) (k : Nat) :
    (crew.turn source k).size = crew.size := by
  unfold turn
  split
  · rfl
  · simp [size]

theorem size_run {σ : Type} (source : TaskSource σ) (crew : Crew σ) (turns : List Nat) :
    (crew.run source turns).size = crew.size := by
  induction turns generalizing crew with
  | nil => rfl
  | cons k rest ih => exact (ih _).trans (size_turn source crew k)

theorem run_append {σ : Type} (source : TaskSource σ) (crew : Crew σ) (turns more : List Nat) :
    crew.run source (turns ++ more) = (crew.run source turns).run source more := List.foldl_append

theorem size_gather {σ : Type} (n : Nat) (state : σ) : (gather n state).size = max n 1 :=
  List.length_replicate

/-! ## Staffed crews -/

/--
The crew is alone with a coordinator, all of whose tasks are for one expression. The tasks in `out`
have gone to its workers, and are operations; each worker has one of them that is processing.
-/
structure Staffed (owner : ExpressionId) (out : List Task) (crew : Crew Coordinator.Clocked) : Prop
    extends crew.state.coordinator.Serves out where
  filed : ∃ e, crew.state.coordinator.store.expressions[owner]? = some e
  owned : ∀ {i t}, crew.state.coordinator.store.tasks.get? i = some t → t.owner = owner
  heldBy : crew.state.coordinator.store.tasks.HeldBy crew.workers
  assigned : ∀ {k : Nat} {a}, crew.workers[k]? = some (.busy a) → ∃ t ∈ out, t.id = a.id ∧
    t.answer? = some a.report
  dispatched : ∀ t ∈ out, t.operation ≠ .value ∧
    ∃ u, crew.state.coordinator.store.tasks.get? t.id = some u ∧ u.blueprint = t.blueprint

def load (crew : Crew Coordinator.Clocked) (owner : ExpressionId) : Nat :=
  crew.state.coordinator.store.tasks.load owner

def Rests (crew : Crew Coordinator.Clocked) (k : Nat) : Prop :=
  ∀ w, crew.workers[k]? = some w → w = .idle ∧
    ∀ i t, crew.state.coordinator.store.tasks.get? i = some t →
    crew.state.coordinator.store.tasks.isEligible t = false

def Agree (crew crew' : Crew Coordinator.Clocked) : Prop :=
  crew'.workers = crew.workers ∧ crew'.state.coordinator = crew.state.coordinator

namespace Staffed

variable {owner : ExpressionId} {out : List Task} (h : crew.Staffed owner out)
include h

theorem congr {crew' : Crew Coordinator.Clocked} (ha : crew.Agree crew') :
    crew'.Staffed owner out := by
  obtain ⟨hserves, hfiled, howned, hheld, hassigned, hdispatched⟩ := h
  obtain ⟨hw, hc⟩ := ha
  rw [← hc] at hserves hfiled hheld
  rw [← hw] at hheld hassigned
  exact ⟨hserves, hfiled, hc ▸ howned, hheld, hassigned, hc ▸ hdispatched⟩

theorem fetch (hk : crew.workers[k]? = some .idle) {asked started : Instant} {t : Task}
    {c : Coordinator} (hn : crew.state.coordinator.nextTask asked started = (some t, c))
    (reads : Nat) :
    (⟨crew.workers.set k (.busy (.ofTask t)), ⟨c, reads⟩⟩ : Crew Coordinator.Clocked).Staffed owner
      (out ++ [t]) ∧
      c.store.tasks.load owner < crew.load owner := by
  have hafter : crew.state.coordinator.after (.nextTask asked started) = c := congrArg Prod.snd hn
  have hserves := h.toServes.after (.nextTask asked started) (.of_draws_eq_nil rfl _) trivial
  rw [hafter, Coordinator.handsOut, hn, Option.toList_some] at hserves
  obtain ⟨u, op, l, r, a, b, hu, hp, rfl, htable, hready⟩ := Coordinator.exists_ready h.proper hn
    (Coordinator.requeueOverdue_of_no_lease h.lease asked)
  have hanswer := (hready.start started).answer?_eq
  have hkeeps : crew.state.coordinator.store.tasks.Keeps c.store.tasks :=
    htable ▸ TaskTable.keeps_put (t := u.start started) hu rfl
  constructor
  · constructor
    case toServes => exact hserves
    case filed =>
      obtain ⟨e, he⟩ := h.filed
      refine ⟨e, ?_⟩
      rw [← hafter, Coordinator.after, Coordinator.expressions_nextTask, he]
    case owned =>
      intro i v hv
      rw [htable, TaskTable.get?_put] at hv
      split at hv
      · cases hv
        exact (h.owned hu :)
      · exact h.owned hv
    case heldBy => exact htable ▸ h.heldBy.put hk hu hp rfl rfl
    case assigned =>
      intro j a ha
      rw [TaskTable.HeldBy.getElem?_set hk] at ha
      split at ha
      · cases ha
        exact ⟨u.start started, List.mem_append_right _ (List.mem_singleton_self _), rfl, hanswer⟩
      · obtain ⟨v, hv, hid, hreport⟩ := h.assigned ha
        exact ⟨v, List.mem_append_left _ hv, hid, hreport⟩
    case dispatched =>
      intro v hv
      rcases List.mem_append.1 hv with hv | hv
      · obtain ⟨hop, w, hw, hb⟩ := h.dispatched v hv
        obtain ⟨x, hx, hb'⟩ := hkeeps hw
        exact ⟨hop, x, hx, hb'.trans hb⟩
      · cases List.mem_singleton.1 hv
        refine ⟨hready.operation ▸ op.operation_ne_value, u.start started, ?_, rfl⟩
        rw [htable, show (u.start started).id = u.id from rfl]
        exact TaskTable.get?_put_self ..
  · -- the task goes from two turns left to one, and no other has changed
    have hstart : (crew.state.coordinator.store.tasks.put u (u.start started)).loadOf u.id = 1 :=
      TaskTable.loadOf_eq (congrArg _ (TaskTable.get?_put_self ..))
    have hwait : crew.state.coordinator.store.tasks.loadOf u.id = 2 :=
      TaskTable.loadOf_eq (by rw [hu, Option.map_some, hp])
    rw [htable]
    refine TaskTable.load_lt (TaskTable.idsOf_put ..) (fun i => ?_)
      (h.sound.table.indexed.mem_idsOf.2 ⟨u, hu, h.owned hu⟩) (by omega)
    by_cases hi : u.id = i
    · subst hi
      omega
    · rw [TaskTable.loadOf, TaskTable.loadOf, TaskTable.get?_put,
        if_neg (show (u.start started).id ≠ i from hi)]

theorem send {a : Assignment} (hk : crew.workers[k]? = some (.busy a)) (now : Instant)
    (reads : Nat) :
    (⟨crew.workers.set k .idle, ⟨(crew.state.coordinator.report a.id a.report now).2, reads⟩⟩ :
        Crew Coordinator.Clocked).Staffed owner out ∧
      (crew.state.coordinator.report a.id a.report now).2.store.tasks.load owner <
        crew.load owner := by
  have hserves :=
    h.toServes.after_of_handsOut_eq_none (.report a.id a.report now) rfl (.of_draws_eq_nil rfl _)
    (h.assigned hk)
  obtain ⟨u, hu, hprocessing⟩ := h.heldBy.busy hk
  have htable := Coordinator.tasks_report h.sound.table.indexed hu a.report now
  have hstatus := Coordinator.map_get?_report (f := Task.status) (fun _ _ _ => rfl)
      h.sound.table.indexed hu
    a.report now
  have hid := h.sound.table.indexed.id_eq hu
  rw [← hid] at hu
  have hkeeps := TaskTable.keeps_reported hu a.report now
  have hload : (a.report.apply u now).status.load = 0 := by cases a.report <;> rfl
  constructor
  · constructor
    case toServes => exact hserves
    case filed =>
      obtain ⟨v, hv, hb⟩ := hkeeps hu
      obtain ⟨e, he⟩ := hserves.sound.owner (htable ▸ hv)
      rw [(Task.fields_of_blueprint hb).2.1, h.owned hu] at he
      exact ⟨e, he⟩
    case owned =>
      intro i v hv
      obtain ⟨w, hw, hb⟩ := TaskTable.exists_get?_of_reported hu a.report now (htable ▸ hv)
      exact (Task.fields_of_blueprint hb).2.1.trans (h.owned hw)
    case heldBy =>
      refine h.heldBy.release hk (fun i hi => ?_) fun t ht hs => ?_
      · rw [hstatus, if_neg hi]
      · have hs' := hstatus a.id
        rw [ht, if_pos rfl, Option.map_some, Option.some.injEq] at hs'
        rw [← hs', hs] at hload
        cases hload
    case assigned =>
      intro j b hb
      rw [TaskTable.HeldBy.getElem?_set hk] at hb
      split at hb
      · cases hb
      · exact h.assigned hb
    case dispatched =>
      intro v hv
      obtain ⟨hop, w, hw, hb⟩ := h.dispatched v hv
      obtain ⟨x, hx, hb'⟩ := hkeeps hw
      exact ⟨hop, x, htable ▸ hx, hb'.trans hb⟩
  · -- the task goes from one turn left to none; others may have received its result
    have hdone : (crew.state.coordinator.report a.id a.report now).2.store.tasks.loadOf u.id = 0 :=
      (TaskTable.loadOf_eq (by rw [hstatus, if_pos hid.symm])).trans hload
    have hwait : crew.state.coordinator.store.tasks.loadOf u.id = 1 :=
      TaskTable.loadOf_eq (by rw [hu, Option.map_some, hprocessing])
    refine TaskTable.load_lt (by rw [htable, TaskTable.idsOf_reported]) (fun i => ?_)
      (h.sound.table.indexed.mem_idsOf.2 ⟨u, hu, h.owned hu⟩) (by omega)
    by_cases hi : u.id = i
    · subst hi
      omega
    · exact (TaskTable.loadOf_congr (by rw [hstatus, if_neg (hid ▸ hi)])).le

/-! ## Turns -/

/-- A turn does nothing, or takes one task one step on. -/
theorem turn (clock : Nat → Instant) (k : Nat) :
    (crew.turn (Coordinator.source clock) k).Staffed owner
      (out ++ crew.state.coordinator.handedOut (crew.call? clock k).toList) ∧
    (crew.Rests k ∧ crew.Agree (crew.turn (Coordinator.source clock) k) ∨
      (crew.turn (Coordinator.source clock) k).load owner < crew.load owner) := by
  cases hk : crew.workers[k]? with
  | none =>
    rw [turn_of_none hk, call?, hk, Option.map_none, Option.toList_none, Coordinator.handedOut,
      List.append_nil]
    refine ⟨h, .inl ⟨fun w hw => ?_, rfl, rfl⟩⟩
    rw [hk] at hw
    cases hw
  | some w =>
    rw [call?, hk, Option.map_some, Option.toList_some, Coordinator.handedOut,
      Coordinator.handedOut, List.append_nil]
    cases w with
    | idle =>
      rcases Coordinator.nextTask_eq h.sound.table (clock crew.state.reads)
        (clock (crew.state.reads + 1))
          (Coordinator.requeueOverdue_of_no_lease h.lease _) with ⟨hn, hnone⟩ | ⟨u, -, -, hn⟩
      · have hagree : crew.Agree (crew.turn (Coordinator.source clock) k) := by
          rw [turn_of_idle hk hn]
          obtain ⟨hlt, hget⟩ := List.getElem?_eq_some_iff.1 hk
          refine ⟨?_, rfl⟩
          rw [Option.elim_none, ← hget]
          exact List.set_getElem_self hlt
        rw [Coordinator.handsOut, hn, Option.toList_none, List.append_nil]
        refine ⟨h.congr hagree, .inl ⟨fun w hw => ?_, hagree⟩⟩
        cases hk.symm.trans hw
        exact ⟨rfl, hnone⟩
      · obtain ⟨hstaffed, hload⟩ := h.fetch hk hn (crew.state.reads + 2)
        rw [Coordinator.handsOut, hn, turn_of_idle hk hn]
        exact ⟨hstaffed, .inr hload⟩
    | busy a =>
      obtain ⟨hstaffed, hload⟩ := h.send hk (clock crew.state.reads) (crew.state.reads + 1)
      rw [Coordinator.handsOut_report, Option.toList_none, List.append_nil, turn_of_busy hk]
      exact ⟨hstaffed, .inr hload⟩

omit h in
theorem run (clock : Nat → Instant) (turns : List Nat) (h : crew.Staffed owner out) :
    (crew.run (Coordinator.source clock) turns).Staffed owner
      (out ++ crew.state.coordinator.handedOut (crew.calls clock turns)) := by
  induction turns generalizing crew out with
  | nil =>
    rw [calls, Coordinator.handedOut, List.append_nil]
    exact h
  | cons k rest ih =>
    rw [calls, Coordinator.handedOut_append, ← coordinator_turn, ← List.append_assoc]
    exact ih (h.turn clock k).1

omit h in
theorem load_run (clock : Nat → Instant) (turns : List Nat) (h : crew.Staffed owner out) :
    (∀ k ∈ turns, crew.Rests k) ∧ crew.Agree (crew.run (Coordinator.source clock) turns) ∨
      (crew.run (Coordinator.source clock) turns).load owner < crew.load owner := by
  induction turns generalizing crew out with
  | nil => exact .inl ⟨nofun, rfl, rfl⟩
  | cons k rest ih =>
    obtain ⟨hstaffed, hturn⟩ := h.turn clock k
    have hrun : crew.run (Coordinator.source clock) (k :: rest) =
        (crew.turn (Coordinator.source clock) k).run (Coordinator.source clock) rest := rfl
    rw [hrun]
    -- as long as turns do nothing the crew is as it was, so what rests then rested at the start
    rcases hturn with ⟨hrests, hw, hc⟩ | hlt <;> rcases ih hstaffed with ⟨hrest, hw', hc'⟩ | hlt'
    · refine .inl ⟨fun j hj => ?_, hw'.trans hw, hc'.trans hc⟩
      rcases List.mem_cons.1 hj with rfl | hj
      · exact hrests
      · have hj := hrest j hj
        rwa [Rests, hw, hc] at hj
    · rw [load, load, hc] at hlt'
      exact .inr hlt'
    · rw [load, load, ← hc'] at hlt
      exact .inr hlt
    · exact .inr (hlt'.trans hlt)

/-! ## The end -/

/-- As long as the expression is not final, a task of it is at hand, or a worker has one. -/
theorem exists_active {e : Expression}
    (he : crew.state.coordinator.store.expressions[owner]? = some e)
    (hs : e.status.isTerminal = false) : ∃ i t, crew.state.coordinator.store.tasks.get? i = some t ∧
    t.owner = owner ∧
      (crew.state.coordinator.store.tasks.isEligible t = true ∨
        ∃ (k : Nat) (a : Assignment), crew.workers[k]? = some (.busy a) ∧ a.id = i) := by
  obtain ⟨t, ht, -, hactive⟩ := h.sound.exists_active he hs
  have hget := (h.sound.mem_tasksOf.1 ht).1
  refine ⟨t.id, t, hget, h.owned hget, ?_⟩
  rcases hactive with hp | heligible
  · exact .inr (h.heldBy.held hget hp)
  · exact .inl heligible

theorem exists_not_rests (hsize : 0 < crew.size) {e : Expression}
    (he : crew.state.coordinator.store.expressions[owner]? = some e)
    (hs : e.status.isTerminal = false) : ∃ k < crew.size, ¬ crew.Rests k := by
  obtain ⟨i, t, ht, -, heligible | ⟨k, a, hk, -⟩⟩ := h.exists_active he hs
  · refine ⟨0, hsize, fun hrests => ?_⟩
    have hfirst : crew.workers[0]? = some crew.workers[0] := List.getElem?_eq_getElem hsize
    rw [(hrests _ hfirst).2 i t ht] at heligible
    cases heligible
  · refine ⟨k, (List.getElem?_eq_some_iff.1 hk).1, fun hrests => ?_⟩
    cases (hrests _ hk).1

theorem final_turn (clock : Nat → Instant) (k : Nat) {e : Expression}
    (he : crew.state.coordinator.store.expressions[owner]? = some e)
    (hs : e.status.isTerminal = true) :
    (crew.turn (Coordinator.source clock) k).state.coordinator.store.expressions[owner]? =
      some e := by
  have after : ∀ call : Call, call.draws = [] →
      (crew.state.coordinator.after call).store.expressions[owner]? = some e :=
    fun call hd => Coordinator.final_after h.sound (.of_draws_eq_nil hd _) he hs
  rw [coordinator_turn, call?]
  cases crew.workers[k]? with
  | none => exact he
  | some w =>
    cases w with
    | idle => exact after (.nextTask _ _) rfl
    | busy a => exact after (.report a.id a.report _) rfl

omit h in
theorem final_run (clock : Nat → Instant) (turns : List Nat) (h : crew.Staffed owner out)
    {e : Expression} (he : crew.state.coordinator.store.expressions[owner]? = some e)
    (hs : e.status.isTerminal = true) :
    (crew.run (Coordinator.source clock) turns).state.coordinator.store.expressions[owner]? =
      some e := by
  induction turns generalizing crew out with
  | nil => exact he
  | cons k rest ih => exact ih (h.turn clock k).1 (h.final_turn clock k he hs)

theorem load_round (clock : Nat → Instant) {turns : List Nat} (hsize : 0 < crew.size)
    (hall : ∀ k < crew.size, k ∈ turns) {e : Expression}
    (he : crew.state.coordinator.store.expressions[owner]? = some e)
    (hs : e.status.isTerminal = false) :
    (crew.run (Coordinator.source clock) turns).load owner < crew.load owner := by
  obtain ⟨k, hk, hrests⟩ := h.exists_not_rests hsize he hs
  rcases h.load_run clock turns with ⟨hr, -⟩ | hlt
  · exact absurd (hr k (hall k hk)) hrests
  · exact hlt

omit h in
/--
As many rounds as there are steps left are enough, whatever the order and number of turns in each.
-/
theorem resolves (clock : Nat → Instant) (rounds : List (List Nat)) (h : crew.Staffed owner out)
    (hsize : 0 < crew.size) (hall : ∀ turns ∈ rounds, ∀ k < crew.size, k ∈ turns)
    (hload : crew.load owner ≤ rounds.length) :
    ∃ e,
      (crew.run (Coordinator.source clock)
        rounds.flatten).state.coordinator.store.expressions[owner]? = some e ∧
      e.status.isTerminal = true := by
  obtain ⟨e, he⟩ := h.filed
  cases hs : e.status.isTerminal with
  | true => exact ⟨e, h.final_run clock _ he hs, hs⟩
  | false =>
    -- every round takes away from what is left to do, or finds the end reached
    induction rounds generalizing crew out e with
    | nil =>
      have hlt := h.load_round clock hsize (fun k hk => List.mem_range.2 hk) he hs
      exact absurd (Nat.lt_of_lt_of_le hlt hload) (Nat.not_lt_zero _)
    | cons turns rest ih =>
      have hlt := h.load_round clock hsize (hall turns List.mem_cons_self) he hs
      have h' := h.run clock turns
      obtain ⟨e', he'⟩ := h'.filed
      rw [List.flatten_cons, run_append]
      cases hs' : e'.status.isTerminal with
      | true => exact ⟨e', h'.final_run clock _ he' hs', hs'⟩
      | false =>
        refine ih h' (by rwa [size_run]) ?_ ?_ e' he' hs'
        · rw [size_run]
          exact fun turns ht => hall turns (List.mem_cons_of_mem _ ht)
        · rw [List.length_cons] at hload
          omega

end Staffed

end Crew

end Reckoner
