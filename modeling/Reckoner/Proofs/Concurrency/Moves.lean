import Reckoner.Proofs.Concurrency.Growth
import Reckoner.Proofs.Concurrency.Steps

/-!
# Steps

What each step of a call relies on (`Valid`), what it does to the store, and what it leaves to be
done. Who writes a task recomputes its expression afterwards, so until then somebody owes it
(`Owes`), and the answer is taken from a store that has the write.
-/

namespace Reckoner

variable {times : OperationTimes}

namespace Stage

/-- The identifiers under which the call may still file something. -/
def claims : Stage → List Uuid
  | create text stamp stamps now => (Call.submit text stamp stamps now).draws
  | save id tasks _ => id.uuid :: (tasks.map Task.id).map Id.uuid
  | _ => []

def Valid (times : OperationTimes) (s : Store) : Stage → Prop
  | create text stamp stamps now => (Call.submit text stamp stamps now).Fresh s
  | refuse id message _ _ =>
    ∃ e cause, s.expressions[id]? = some e ∧ Formula.parse e.text = .error cause ∧
      message = cause.message
  | save id tasks _ =>
    s.tasks.idsOf id = [] ∧ (tasks.map Task.id).Nodup ∧ (∀ t ∈ tasks, s.tasks.get? t.id = none) ∧
      ∃ e f stamps, s.expressions[id]? = some e ∧ Formula.parse e.text = .ok f ∧
        tasks = f.plan times id stamps
  | link id _ _ => s.Planned times id
  | update t _ =>
    t.Coherent ∧ t.isFinished = true ∧ ∃ old, s.tasks.get? t.id = some old ∧
      t.blueprint = old.blueprint
  | inspect id _ _ => s.Planned times id
  | conclude id e tasks _ _ =>
    s.Planned times id ∧ s.expressions[id]? = some e ∧ e.status.isTerminal = false ∧
      ∃ o, Outcome.ofTasks tasks = .ok o ∧ (o = .inProgress → Outcome.Unsettled tasks)
  | _ => True

def Plans (i : ExpressionId) : Stage → Prop
  | save id _ _ => id = i
  | _ => False

/-- The call is about to make the expression final if the tasks say so. -/
def Owes (i : ExpressionId) : Stage → Prop
  | link id _ _ => id = i
  | inspect id _ _ => id = i
  | conclude id _ tasks _ _ => id = i ∧ ¬ Outcome.Unsettled tasks
  | _ => False

def writes (stage : Stage) : Bool := stage.needsLock || stage.holdsLock

theorem Valid.mono {s s' : Store} {stage : Stage} (h : stage.Valid times s) (hi : s.tasks.Indexed)
    {drawn : List Uuid} (hx : s.Extends drawn s') (hd : ∀ u ∈ stage.claims, u ∉ drawn)
    (hlock : stage.holdsLock = true → s'.expressions = s.expressions) : stage.Valid times s' := by
  cases stage with
  | create text stamp stamps now =>
    obtain ⟨hn, he, ht⟩ := h
    exact ⟨hn, fun u hu => hx.getElem?_eq_none (he u hu) (hd u hu),
      fun u hu => hx.tasks.get?_eq_none (ht u hu) (hd u hu)⟩
  | refuse id message fault now =>
    obtain ⟨e, cause, he, hp, hm⟩ := h
    obtain ⟨e', he', htext, -⟩ := hx.kept he
    exact ⟨e', cause, he', htext ▸ hp, hm⟩
  | save id tasks now =>
    obtain ⟨hids, hn, hf, e, f, stamps, he, hp, htasks⟩ := h
    obtain ⟨e', he', htext, -⟩ := hx.kept he
    refine ⟨?_, hn, fun t ht => ?_, e', f, stamps, he', htext ▸ hp, htasks⟩
    · rw [hx.tasks.idsOf id (.inr (hd _ List.mem_cons_self)), hids]
    · have hclaimed : t.id.uuid ∈ (tasks.map Task.id).map Id.uuid :=
        List.mem_map_of_mem (List.mem_map_of_mem ht)
      exact hx.tasks.get?_eq_none (hf t ht) (hd _ (List.mem_cons_of_mem _ hclaimed))
  | link id ids now => exact Store.Planned.mono h hi hx
  | update t now =>
    obtain ⟨hc, hf, old, hold, hb⟩ := h
    obtain ⟨u, hu, hbu, -⟩ := hx.tasks.kept hold
    exact ⟨hc, hf, u, hu, hb.trans hbu.symm⟩
  | inspect id asker now => exact Store.Planned.mono h hi hx
  | conclude id e tasks asker now =>
    obtain ⟨hp, he, ht, ho⟩ := h
    exact ⟨hp.mono hi hx, by rw [hlock rfl, he], ht, ho⟩
  | _ => trivial

end Stage

namespace Store

/--
An expression whose text can be read is final, or has tasks to wait for, or somebody sees to it.
-/
def Covers (times : OperationTimes) (s : Store) (i : ExpressionId) (e : Expression)
    (planned owed : Prop) : Prop :=
  ∀ f, Formula.parse e.text = .ok f → planned ∨ ∃ stamps, s.tasks.Holds times i stamps f ∧
    (e.status.isTerminal = true ∨ Outcome.Unsettled (s.tasksOf i) ∨ owed)

theorem Covers.imp {s : Store} {i : ExpressionId} {e : Expression} {P O P' O' : Prop}
    (h : s.Covers times i e P O) (hP : P → P') (hO : O → O') :
    s.Covers times i e P' O' := fun f hp =>
  (h f hp).imp hP fun ⟨stamps, hh, hs⟩ => ⟨stamps, hh, hs.imp_right (.imp_right hO)⟩

end Store

/-- A step of a call from one store to another: it leaves to the others what they rely on, and every
expression covered, whatever they plan or owe. -/
structure Moves (times : OperationTimes) (s s' : Store) (stage next : Stage) : Prop where
  orderly : s'.Orderly times
  frame : s.Extends stage.claims s'
  expressions : stage.writes = false → s'.expressions = s.expressions
  valid : next.Valid times s'
  claims : next.claims.Sublist stage.claims
  lock : next.holdsLock = true → stage.needsLock = true
  covers : ∀ i e', s'.expressions[i]? = some e' → ∀ P O,
    (∀ e, s.expressions[i]? = some e → s.Covers times i e (P ∨ stage.Plans i) (O ∨ stage.Owes i)) →
      s'.Covers times i e' (P ∨ next.Plans i) (O ∨ next.Owes i)

def Stage.IsFree (stage : Stage) : Prop := ∀ i, ¬ stage.Plans i ∧ ¬ stage.Owes i

theorem Stage.isFree_of_isIdle {stage : Stage} (h : stage.isIdle = true) : stage.IsFree := by
  intro i
  cases stage <;> simp [isIdle] at h <;> exact ⟨nofun, nofun⟩

namespace Moves

variable {s s' : Store} {stage next : Stage}

/-! ## Kinds of steps -/

/-- The call only reads. -/
theorem still (h : s.Orderly times) (hv : next.Valid times s)
    (hclaims : next.claims.Sublist stage.claims)
    (hlock : next.holdsLock = true → stage.needsLock = true)
    (hplans : ∀ i, stage.Plans i → next.Plans i)
    (howes : ∀ i e, s.expressions[i]? = some e → stage.Owes i →
      e.status.isTerminal = true ∨ Outcome.Unsettled (s.tasksOf i) ∨ next.Owes i) :
      Moves times s s stage next where
  orderly := h
  frame := .of_tasks (.refl _ _)
  expressions _ := rfl
  valid := hv
  claims := hclaims
  lock := hlock
  covers i e he P O hc f hp := by
    refine (hc e he f hp).imp (.imp_right (hplans i)) fun ⟨stamps, hh, hs⟩ => ⟨stamps, hh, ?_⟩
    rcases hs with ht | hu | ho | ho
    · exact .inl ht
    · exact .inr (.inl hu)
    · exact .inr (.inr (.inl ho))
    · exact (howes i e he ho).imp_right (.imp_right .inr)

theorem reads (h : s.Orderly times) (hfree : stage.IsFree) (hv : next.Valid times s)
    (hclaims : next.claims = []) (hlock : next.holdsLock = false) : Moves times s s stage next :=
  .still h hv (hclaims ▸ List.nil_sublist _) (by simp [hlock]) (fun i hp => absurd hp (hfree i).1)
    fun i _ _ ho => absurd ho (hfree i).2

/-- Tasks go to workers and come back. -/
theorem calm (h : s.Orderly times) {table : TaskTable} (hcalm : s.tasks.Calm table)
    (hi : table.Indexed) (hc : table.Coherent) (hfree : stage.IsFree)
    (hv : next.Valid times { s with tasks := table }) (hclaims : next.claims = [])
    (hlock : next.holdsLock = false) : Moves times s { s with tasks := table } stage next := by
  have hframe : s.Extends stage.claims { s with tasks := table } := .of_tasks (.of_calm hcalm _)
  refine ⟨?_, hframe, fun _ => rfl, hv, hclaims ▸ List.nil_sublist _, by simp [hlock],
    fun i e he P O hcov f hp => ?_⟩
  · refine h.mono hframe hi hc (fun i t ht => ?_) h.refused
    obtain ⟨u, hu, -⟩ := hcalm.exists_get? ht
    exact .inl ⟨u, hu⟩
  · obtain ⟨hplans, howes⟩ := hfree i
    rcases hcov e he f hp with hP | ⟨stamps, hh, hs⟩
    · exact .inl (.inl (hP.resolve_right hplans))
    · refine .inr ⟨stamps, hframe.tasks.holds h.indexed hh, ?_⟩
      refine hs.imp_right (.imp (fun hu => hu.congr (hcalm.ofOwner i)) fun ho => ?_)
      exact .inl (ho.resolve_right howes)

/-- One expression is filed, for the first time or with the text and the verdict that it has. -/
theorem files (h : s.Orderly times) {id : ExpressionId} {e : Expression}
    (htasks : s'.tasks = s.tasks)
    (hexpr : ∀ j, s'.expressions[j]? = if id = j then some e else s.expressions[j]?)
    (hold : s.expressions[id]? = none ∧ id.uuid ∈ stage.claims ∨
      ∃ old, s.expressions[id]? = some old ∧
      e.text = old.text ∧ (old.status.isTerminal = true → e.verdict = old.verdict))
    (hrefused : ∀ cause, Formula.parse e.text = .error cause → e.status.isTerminal = true →
      e.verdict = (.failed, none, some cause.message))
    (hwrites : stage.writes = true) (hv : next.Valid times s')
    (hclaims : next.claims.Sublist stage.claims) (hlock : next.holdsLock = false)
    (hfree : ∀ i ≠ id, ¬ stage.Plans i ∧ ¬ stage.Owes i)
    (hcov : ∀ P O, (∀ old, s.expressions[id]? = some old →
      s.Covers times id old (P ∨ stage.Plans id) (O ∨ stage.Owes id)) →
      s'.Covers times id e (P ∨ next.Plans id) (O ∨ next.Owes id)) :
      Moves times s s' stage next := by
  have hframe : s.Extends stage.claims s' := by
    refine ⟨htasks ▸ .refl _ _, fun i e' he' => ?_, fun i e' he' => ?_⟩
    · rw [hexpr]
      split
      · rename_i hid
        rcases hold with ⟨hnone, -⟩ | ⟨old, hold, htext, hverdict⟩
        · rw [← hid, hnone] at he'
          cases he'
        · cases hid
          cases hold.symm.trans he'
          exact ⟨e, rfl, htext, hverdict⟩
      · exact ⟨e', he', rfl, fun _ => rfl⟩
    · rw [hexpr] at he'
      split at he'
      · rename_i hid
        exact hold.imp (fun hnew => hid ▸ hnew.2) fun ⟨old, hold, _⟩ => ⟨old, hid ▸ hold⟩
      · exact .inr ⟨e', he'⟩
  have hget : ∀ i, s'.tasks.get? i = s.tasks.get? i := fun i => by rw [htasks]
  refine ⟨?_, hframe, by simp [hwrites], hv, hclaims, by simp [hlock], fun i e' he' P O hc => ?_⟩
  · refine h.mono hframe (htasks ▸ h.indexed) (htasks ▸ h.coherent)
      (fun i t ht => .inl ⟨t, hget i ▸ ht⟩) ?_
    intro i e' cause he' hp ht
    rw [hexpr] at he'
    split at he'
    · cases he'
      exact hrefused cause hp ht
    · exact h.refused he' hp ht
  · rw [hexpr] at he'
    split at he'
    · rename_i hid
      cases he'
      cases hid
      exact hcov P O hc
    · rename_i hid
      obtain ⟨hplans, howes⟩ := hfree i (Ne.symm hid)
      have hkept : s.Covers times i e' (P ∨ next.Plans i) (O ∨ next.Owes i) :=
        (hc e' he').imp (fun hP => .inl (hP.resolve_right hplans)) fun hO =>
          .inl (hO.resolve_right howes)
      unfold Store.Covers Store.tasksOf at hkept ⊢
      rwa [htasks]

end Moves

end Reckoner
