import Reckoner.Proofs.Coordinator.Tables
import Reckoner.Wire.Message

/-!
# Status and fields

After every run an expression or a task has the fields that go with its status and no others:
whatever changes a record leaves it so, and what is reported twice is written over as a whole. So
clients are shown a result, an error or neither. The identifiers that are drawn need not differ for
this.
-/

namespace Reckoner

inductive ExpressionSummary.Settled : ExpressionSummary → Prop where
  | result (id : ExpressionId) (v : Float) : Settled ⟨id, .completed, some v, none⟩
  | error (id : ExpressionId) (message : String) : Settled ⟨id, .failed, none, some message⟩
  | neither (id : ExpressionId) {status : ExpressionStatus} (h : status.isTerminal = false) :
      Settled ⟨id, status, none, none⟩

namespace Expression.Coherent

theorem create (text : String) (stamp : Stamp) : (Expression.create text stamp).Coherent := by
  constructor <;> simp [Expression.create]

variable {e : Expression} (h : e.Coherent)
include h

theorem touch (now : Instant) : (e.touch now).Coherent := ⟨h.result, h.error⟩

theorem link (ids : List TaskId) : Expression.Coherent { e with taskIds := ids } :=
  ⟨h.result, h.error⟩

theorem settled_summary : e.summary.Settled := by
  obtain ⟨hr, he⟩ := h
  have noResult : e.status ≠ .completed → e.result = none := by
    intro hs
    rwa [← Option.not_isSome_iff_eq_none, hr]
  have noError : e.status ≠ .failed → e.error = none := by
    intro hs
    rwa [← Option.not_isSome_iff_eq_none, he]
  rw [summary]
  cases hs : e.status with
  | pending | computing =>
    rw [noResult (by simp [hs]), noError (by simp [hs])]
    exact .neither e.id rfl
  | completed =>
    obtain ⟨v, hv⟩ := Option.isSome_iff_exists.1 (hr.2 hs)
    rw [hv, noError (by simp [hs])]
    exact .result e.id v
  | failed =>
    obtain ⟨m, hm⟩ := Option.isSome_iff_exists.1 (he.2 hs)
    rw [hm, noResult (by simp [hs])]
    exact .error e.id m

end Expression.Coherent

/-! ## Stores -/

def Store.Coherent (s : Store) : Prop := ∀ ⦃i : ExpressionId⦄ ⦃e⦄, s.expressions[i]? = some e →
    e.Coherent

namespace Store.Coherent

variable {s s' : Store} {i : ExpressionId} {now : Instant} (h : s.Coherent)
include h

theorem insert (i : ExpressionId) {e : Expression} (he : e.Coherent) :
    Store.Coherent { s with expressions := s.expressions.insert i e } := by
  intro j e' hj
  rw [getElem?_insert] at hj
  split at hj
  · cases hj
    exact he
  · exact h hj

theorem modifyExpression {f : Expression → Expression}
    (hf : ∀ e : Expression, e.Coherent → (f e).Coherent) {e : Expression}
    (hs : s.modifyExpression i f now = .ok (e, s')) : s'.Coherent := by
  obtain ⟨old, hold, rfl⟩ := of_modifyExpression_eq_ok hs
  exact h.insert i ((hf old (h hold)).touch now)

theorem recompute {status : ExpressionStatus} (hs : s.recompute i now = .ok (status, s')) :
    s'.Coherent := by
  rcases of_recompute_eq_ok hs with rfl | ⟨e, o, he, rfl⟩
  · exact h
  · exact h.insert i ((h he).recomputed o now)

theorem of_expressions (he : s'.expressions = s.expressions) : s'.Coherent := by
  intro i e hi
  exact h (he ▸ hi)

end Store.Coherent

namespace Coordinator

variable {c : Coordinator}

/-! ## One call -/

theorem coherent_submit (h : c.store.Coherent) (text : String) (stamp : Stamp)
    (stamps : Nat → Stamp) (now : Instant) : (c.submit text stamp stamps now).2.store.Coherent := by
  apply submit_induction
  case file => exact h.insert _ (.create text stamp)
  case fail => exact fun message hs h => h.modifyExpression (fun e _ => .fail e message now) hs
  case save => exact fun hs h => h.of_expressions (Store.expressions_saveTasks hs)
  case link => exact fun ids hs h => h.modifyExpression (fun e he => he.link ids) hs
  case recompute => exact fun hs h => h.recompute hs

theorem coherent_report (h : c.store.Coherent) (id : TaskId) (r : Report) (now : Instant) :
    (c.report id r now).2.store.Coherent := by
  apply report_induction
  case start => exact h
  case update => exact fun hs => h.of_expressions (Store.expressions_updateTask hs)
  case recompute => exact fun _ hs h => h.recompute hs

theorem coherent_after (h : c.store.Coherent) (call : Call) : (c.after call).store.Coherent := by
  cases call with
  | submit text stamp stamps now => exact coherent_submit h text stamp stamps now
  | nextTask asked started => exact h.of_expressions (expressions_nextTask c asked started)
  | requeue now => exact h
  | report id r now => exact coherent_report h id r now

/-! ## Runs -/

theorem coherent_run (h : c.store.Coherent) (calls : List Call) : (c.run calls).store.Coherent := by
  induction calls generalizing c with
  | nil => exact h
  | cons call rest ih => exact ih (coherent_after h call)

/--
After any run an expression has a result exactly when it is completed and an error exactly when it
is failed, and its summary shows just that. A task has them likewise, has its end exactly when it is
one or the other, has no start while it is pending and has one while a worker has it.
-/
theorem fields_match_status (times : OperationTimes) (lease : Option Duration) (calls : List Call) :
    let s := ((initial times lease).run calls).store
    (∀ (i : ExpressionId) e, s.expressions[i]? = some e → e.Coherent ∧ e.summary.Settled) ∧
    ∀ i t, s.tasks.get? i = some t →
      (t.result.isSome ↔ t.status = .completed) ∧ (t.error.isSome ↔ t.status = .failed) ∧
      (t.completedAt.isSome ↔ t.status = .completed ∨ t.status = .failed) ∧
      (t.status = .pending → t.startedAt = none) ∧
      (t.status = .processing → t.startedAt.isSome) := by
  intro s
  have hexpr : s.Coherent := coherent_run (fun i e h => by simp [initial, Store.empty] at h) calls
  have htable : s.tasks.Proper := proper_run .empty calls
  refine ⟨fun i e he => ⟨hexpr he, (hexpr he).settled_summary⟩, fun i t ht => ?_⟩
  obtain ⟨hresult, herror, hend, hpending, hprocessing, -⟩ := htable.sound.coherent ht
  exact ⟨hresult, herror, hend, hpending, hprocessing⟩

/-- A division is given up by its worker, which fails the quotient, and completed after that. -/
theorem fields_match_status_of_second_thought :
    let s := ((initial .instant none).run [.submitText "6/2" 0,
      .nextTask (Evaluation.clock 1) (Evaluation.clock 2),
      .report (Id.ofNat 3) (.failed "lost") (Evaluation.clock 3),
      .report (Id.ofNat 3) (.completed 3.0) (Evaluation.clock 4)]).store
    ∃ e t, s.expressions[(Id.ofNat 0 : ExpressionId)]? = some e ∧
      s.tasks.get? (Id.ofNat 3) = some t ∧
      e.summary.Settled ∧ e.error.isSome ∧ t.result.isSome ∧ ¬ t.error.isSome := by
  intro s
  obtain ⟨hexpr, htask⟩ := fields_match_status .instant none [.submitText "6/2" 0,
    .nextTask (Evaluation.clock 1) (Evaluation.clock 2),
    .report (Id.ofNat 3) (.failed "lost") (Evaluation.clock 3),
    .report (Id.ofNat 3) (.completed 3.0) (Evaluation.clock 4)]
  have he : s.expressions[(Id.ofNat 0 : ExpressionId)]?.map Expression.status = some .failed := by
    decide
  have ht : (s.tasks.get? (Id.ofNat 3)).map Task.status = some .completed := by decide
  obtain ⟨e, he, hes⟩ := Option.map_eq_some_iff.1 he
  obtain ⟨t, ht, hts⟩ := Option.map_eq_some_iff.1 ht
  obtain ⟨hcoherent, hsettled⟩ := hexpr _ e he
  obtain ⟨hresult, herror, -⟩ := htask _ t ht
  refine ⟨e, t, he, ht, hsettled, hcoherent.error.2 hes, hresult.2 hts, ?_⟩
  rw [herror, hts]
  simp

end Coordinator

end Reckoner
