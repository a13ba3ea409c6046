import Reckoner.Proofs.Coordinator.Sound
import Reckoner.Proofs.HandOut

/-!
# Agreement with direct evaluation

If all reports are honest, the tasks of an expression and the expression itself say what direct
evaluation of its text says. The invariant ties every stored task, and every copy that was handed
out, to the formula that the task works out. Copies stay right however old they are, since a formula
has one value.
-/

namespace Reckoner

/-! ## Honest reports -/

def Task.answer? (t : Task) : Option Report :=
  t.operandValues.map fun (a, b) =>
    match t.operation.apply a b with
    | .ok v => .completed v
    | .error _ => .failed "division by zero"

def Call.IsHonest (out : List Task) : Call → Prop
  | .report id r _ => ∃ t ∈ out, t.id = id ∧ t.answer? = some r
  | _ => True

instance (out : List Task) : (call : Call) → Decidable (call.IsHonest out)
  | .submit .. => instDecidableTrue
  | .nextTask .. => instDecidableTrue
  | .requeue _ => instDecidableTrue
  | .report id r _ => inferInstanceAs (Decidable (∃ t ∈ out, t.id = id ∧ t.answer? = some r))

/-- Every report of the run answers to a task that was handed out before. -/
def Coordinator.Honest (c : Coordinator) (calls : List Call) : Prop :=
  ∀ k (h : k < calls.length), calls[k].IsHonest (c.handedOut (calls.take k))

theorem Coordinator.Honest.snoc {c : Coordinator} {calls : List Call} {call : Call}
    (h : c.Honest (calls ++ [call])) : c.Honest calls ∧ call.IsHonest (c.handedOut calls) := by
  constructor
  · intro k hk
    have := h k (by rw [List.length_append]; omega)
    rwa [List.getElem_append_left hk, List.take_append_of_le_length (Nat.le_of_lt hk)] at this
  · have := h calls.length (by simp)
    rwa [List.getElem_concat_length rfl, List.take_left] at this

/-! ## Agreement -/

/--
The outcome is the value of the formula, or the division by zero that keeps it from having one.
-/
def Formula.Allows (f : Formula) : Outcome → Prop
  | .resolved v => f.eval = .ok v
  | .failed m => f.eval = .error .divisionByZero ∧ m = "division by zero"
  | .inProgress => True

def Report.outcome : Report → Outcome
  | completed v => .resolved v
  | failed m => .failed m

structure Task.Agrees (t : Task) (f : Formula) : Prop where
  completed : ∀ v, t.completedResult = some v → f.Allows (.resolved v)
  failed : t.status = .failed → ∀ m, t.error = some m → f.Allows (.failed m)

structure Expression.Agrees (e : Expression) (f : Formula) : Prop where
  completed : e.status = .completed → ∀ v, e.result = some v → f.Allows (.resolved v)
  failed : e.status = .failed → ∀ m, e.error = some m → f.Allows (.failed m)

structure Store.Agrees (s : Store) (out : List Task) : Prop where
  tasks : ∀ ⦃i t⦄, s.tasks.get? i = some t → ∃ f, s.tasks.WorksOut t.owner i f ∧ t.Agrees f
  out : ∀ t ∈ out, ∃ f, s.tasks.WorksOut t.owner t.id f ∧ ∀ r, t.answer? = some r →
    f.Allows r.outcome
  expressions : ∀ ⦃i : ExpressionId⦄ ⦃e f⦄, s.expressions[i]? = some e →
    Formula.parse e.text = .ok f → e.Agrees f

theorem Task.Agrees.congr {t u : Task} {f : Formula} (h : t.Agrees f)
    (hs : u.standing = t.standing) : u.Agrees f where
  completed v hv := h.completed v (by rw [← hv, Task.completedResult_eq_of_standing_eq hs])
  failed hf m hm := by
    have e := congrArg Task.error hs
    exact h.failed ((Task.failed_iff_of_standing_eq hs).1 hf) m (e.symm.trans hm)

theorem Report.agrees_apply {r : Report} {f : Formula} (h : f.Allows r.outcome) (t : Task)
    (now : Instant) : (r.apply t now).Agrees f := by
  cases r with
  | completed v =>
    refine ⟨fun w hw => ?_, fun hf => ?_⟩
    · rw [completedResult_apply] at hw
      cases hw
      exact h
    · cases hf
  | failed m =>
    refine ⟨fun w hw => ?_, fun _ m' hm => ?_⟩
    · rw [completedResult_apply] at hw
      cases hw
    · cases hm
      exact h

theorem Expression.Agrees.recomputed {e : Expression} {f : Formula} (h : e.Agrees f) {o : Outcome}
    (ho : f.Allows o) (now : Instant) : (e.recomputed o now).Agrees f := by
  unfold Expression.recomputed
  split
  · exact h
  · rename_i ht
    cases o with
    | failed m =>
      refine ⟨fun hc => (by cases hc), fun _ m' hm => ?_⟩
      cases hm
      exact ho
    | resolved v =>
      refine ⟨fun _ w hw => ?_, fun hf => (by cases hf)⟩
      cases hw
      exact ho
    | inProgress =>
      simp only [startComputing]
      split
      · exact ⟨fun hc => (by cases hc), fun hf => (by cases hf)⟩
      · exact h

namespace TaskTable

variable {table : TaskTable} {times : OperationTimes} {owner : ExpressionId} {stamps : Nat → Stamp}
  {f : Formula}

theorem Holds.allows_outcome (h : table.Holds times owner stamps f) (hs : table.Sound)
    (ha : ∀ ⦃i t⦄, table.get? i = some t → ∃ g, table.WorksOut t.owner i g ∧ t.Agrees g)
    {o : Outcome} (ho : Outcome.ofTasks (table.ofOwner owner) = .ok o) : f.Allows o := by
  rcases h.outcome_cases hs with ⟨t, ht, hf, m, hm, ho'⟩ | ⟨-, -, ho'⟩ | ⟨-, -, v, hv, ho'⟩
  · cases ho.symm.trans ho'
    obtain ⟨g, hg, hw⟩ := h.worksOut hs.indexed ht
    obtain ⟨g', hw', hagrees⟩ := ha (hs.indexed.mem_ofOwner.1 ht).1
    cases hw.unique hw'
    obtain ⟨hzero, hmessage⟩ := hagrees.failed hf m hm
    -- the task works out a part only, but a failure anywhere fails the whole
    exact ⟨Formula.eval_of_mem_parts hg hzero, hmessage⟩
  · cases ho.symm.trans ho'
    trivial
  · cases ho.symm.trans ho'
    obtain ⟨t, ht, hr⟩ := Option.bind_eq_some_iff.1 hv
    obtain ⟨g, hw, hagrees⟩ := ha ht
    cases hw.unique (h.worksOut_root hs.indexed)
    exact hagrees.completed v hr

theorem Ready.allows_answer {t l r : Task} {op : Operator} {a b : Float}
    (h : table.Ready t op l r a b) {left right : Formula} (hwl : table.WorksOut owner l.id left)
    (hwr : table.WorksOut owner r.id right)
    (ha : ∀ ⦃i t⦄, table.get? i = some t → ∃ g, table.WorksOut t.owner i g ∧ t.Agrees g)
    {q : Report} (hq : t.answer? = some q) : (Formula.binary op left right).Allows q.outcome := by
  -- what is in the slots are results of completed tasks, and those agree
  have operand : ∀ {u : Task} {g v}, table.get? u.id = some u → u.status = .completed →
      u.result = some v →
      table.WorksOut owner u.id g → g.eval = .ok v := by
    intro u g v hu hc hr hw
    obtain ⟨g', hw', hagrees⟩ := ha hu
    cases hw'.unique hw
    exact hagrees.completed v (by rw [Task.completedResult, if_pos hc, hr])
  have hl := operand h.stored.1 h.completed.1 h.results.1 hwl
  have hr := operand h.stored.2 h.completed.2 h.results.2 hwr
  have heval : (Formula.binary op left right).eval = op.operation.apply a b := by
    rw [Formula.eval_binary, hl, hr]
    rfl
  rw [Task.answer?, h.operandValues_eq, h.operation, Option.map_some, Option.some.injEq] at hq
  subst hq
  dsimp only
  cases hv : op.operation.apply a b with
  | ok v => exact heval.trans hv
  | error fault =>
    cases Formula.apply_eq_error hv
    exact ⟨heval.trans hv, rfl⟩

end TaskTable

namespace Store.Agrees

variable {s s' : Store} {out : List Task}

theorem empty : Store.empty.Agrees [] where
  tasks i t h := by simp [Store.empty] at h
  out t h := by cases h
  expressions i e f h := by simp [Store.empty] at h

variable (h : s.Agrees out)
include h

theorem update (hk : s.tasks.Keeps s'.tasks)
    (htasks : ∀ ⦃i t⦄, s'.tasks.get? i = some t →
      (∃ f, s'.tasks.WorksOut t.owner i f ∧ t.Agrees f) ∨
      ∃ u, s.tasks.get? i = some u ∧ t.standing = u.standing)
    (hexpr : (∀ ⦃i t⦄, s'.tasks.get? i = some t → ∃ f, s'.tasks.WorksOut t.owner i f ∧ t.Agrees f) →
      ∀ ⦃i : ExpressionId⦄ ⦃e f⦄, s'.expressions[i]? = some e → Formula.parse e.text = .ok f →
        e.Agrees f ∨ s.expressions[i]? = some e) : s'.Agrees out := by
  have htasks' : ∀ ⦃i t⦄, s'.tasks.get? i = some t → ∃ f, s'.tasks.WorksOut t.owner i f ∧
      t.Agrees f := by
    intro i t ht
    rcases htasks ht with hnew | ⟨u, hu, hs⟩
    · exact hnew
    · obtain ⟨f, hw, ha⟩ := h.tasks hu
      have ho := Task.owner_eq_of_standing_eq hs
      exact ⟨f, ho ▸ hw.mono hk, ha.congr hs⟩
  refine ⟨htasks', fun t ht => ?_, fun i e f he hp => ?_⟩
  · obtain ⟨f, hw, ha⟩ := h.out t ht
    exact ⟨f, hw.mono hk, ha⟩
  · rcases hexpr htasks' he hp with hnew | hold
    · exact hnew
    · exact h.expressions hold hp

theorem calm (he : s'.expressions = s.expressions) (hc : s.tasks.Calm s'.tasks) : s'.Agrees out :=
  h.update (TaskTable.keeps_of_standing hc.standing) (fun _ _ ht => .inr (hc.exists_get? ht))
    fun _ _ _ _ hi _ => .inr (he ▸ hi)

theorem snoc {t : Task} {f : Formula} (hw : s.tasks.WorksOut t.owner t.id f)
    (ha : ∀ r, t.answer? = some r → f.Allows r.outcome) : s.Agrees (out ++ [t]) where
  tasks := h.tasks
  out u hu := by
    rcases List.mem_append.1 hu with hu | hu
    · exact h.out u hu
    · cases List.mem_singleton.1 hu
      exact ⟨f, hw, ha⟩
  expressions := h.expressions

/-- What is final is what direct evaluation finds. -/
theorem eval_eq {times : OperationTimes} (hs : s.Sound times) {i : ExpressionId} {e : Expression}
    (he : s.expressions[i]? = some e) {f : Formula} (hp : Formula.parse e.text = .ok f) :
    (e.status = .completed → ∃ v, e.result = some v ∧ f.eval = .ok v) ∧
      (e.status = .failed → f.eval = .error .divisionByZero ∧
        e.error = some "division by zero") := by
  obtain ⟨hcompleted, hfailed⟩ := h.expressions he hp
  have hc := hs.coherent he
  constructor
  · intro hst
    obtain ⟨v, hv⟩ := Option.isSome_iff_exists.1 (hc.result.2 hst)
    exact ⟨v, hv, hcompleted hst v hv⟩
  · intro hst
    obtain ⟨m, hm⟩ := Option.isSome_iff_exists.1 (hc.error.2 hst)
    obtain ⟨heval, rfl⟩ := hfailed hst m hm
    exact ⟨heval, hm⟩

end Store.Agrees

theorem Plan.agrees_of_mem {table : TaskTable} {times : OperationTimes} {owner o : ExpressionId}
    {stamps : Nat → Stamp} {k : Nat} {f g : Formula} {t u : Task}
    (ht : t ∈ (ofFormula times owner stamps k f).tasks) (hs : u.standing = t.standing) {i : TaskId}
    (hu : table.get? i = some u) (hw : table.WorksOut o i g) : u.Agrees g := by
  refine Task.Agrees.congr ⟨fun v hv => ?_, fun hf => absurd hf (not_failed_of_mem ht)⟩ hs
  -- an operation comes without a result
  have hliteral : t.operation = .value ∧ t.left = .literal v := by
    revert hv
    refine forall_mem_tasks (P := fun t => t.completedResult = some v → t.operation = .value ∧
      t.left = .literal v)
      (fun w stamp hv => ?_) (fun op l r d stamp hv => ?_) f k t ht
    · cases hv
      exact ⟨rfl, rfl⟩
    · cases hv
  obtain ⟨-, -, hop, -, hl, -⟩ := Task.fields_of_blueprint (Task.blueprint_eq_of_standing_eq hs)
  rw [hliteral.1] at hop
  rw [hliteral.2] at hl
  cases hw with
  | number hu' _ _ hl' =>
    cases hu.symm.trans hu'
    cases hl'.symm.trans (Operand.eq_literal_of_blank hl)
    rfl
  | binary op hu' _ hop' =>
    cases hu.symm.trans hu'
    exact absurd (hop'.symm.trans hop) op.operation_ne_value

namespace Coordinator

variable {c : Coordinator} {out : List Task} (h : c.store.Agrees out) (hs : c.store.Sound c.times)
include h hs

theorem agrees_submit {text : String} {stamp : Stamp} {stamps : Nat → Stamp} {now : Instant}
    (hf : (Call.submit text stamp stamps now).Fresh c.store) :
    (c.submit text stamp stamps now).2.store.Agrees out := by
  cases hp : Formula.parse text with
  | error cause =>
    obtain ⟨s', hs', htasks, hexpr⟩ := submit_eq_of_error c hp stamp stamps now
    rw [hs']
    refine h.update (htasks ▸ .refl _) (fun i t ht => .inr ⟨t, htasks ▸ ht, rfl⟩)
      fun _ i e f he hp' => ?_
    rw [hexpr] at he
    split at he
    · cases he
      cases hp.symm.trans hp'
    · exact .inr he
  | ok f =>
    obtain ⟨hn, hold⟩ := hf.plan hp c.times ⟨stamp.uuid⟩
    obtain ⟨o, s', hs', htasks, hholds, ho, hexpr⟩ :=
      submit_eq_of_ok hs hp now (hf.expressions _ Call.stamp_mem_draws) hn hold
    have hsound : s'.tasks.Sound := htasks ▸ hs.table.arrived_plan hn hold
    rw [hs']
    refine h.update (htasks ▸ TaskTable.keeps_arrived hold) (fun i u hu => ?_)
      fun hall i e g he hp' => ?_
    · obtain ⟨t, ⟨ht, -⟩ | ht, hst⟩ := TaskTable.exists_get?_of_arrived hn (htasks ▸ hu)
      · have howner : u.owner = ⟨stamp.uuid⟩ := by
          rw [Task.owner_eq_of_standing_eq hst, Plan.owner_of_mem ht]
        cases hsound.indexed.id_eq hu
        obtain ⟨g, -, hw⟩ :=
          hholds.worksOut hsound.indexed (hsound.indexed.mem_ofOwner.2 ⟨hu, howner⟩)
        exact .inl ⟨g, howner ▸ hw, Plan.agrees_of_mem ht hst hu hw⟩
      · exact .inr ⟨t, ht, hst⟩
    · rw [hexpr] at he
      split at he
      · cases he
        rw [(Expression.recomputed_fields _ o now).2.1] at hp'
        cases hp.symm.trans hp'
        refine .inl (Expression.Agrees.recomputed ?_ (hholds.allows_outcome hsound hall ho) now)
        exact ⟨fun hc => (by cases hc), fun hf => (by cases hf)⟩
      · exact .inr he

theorem agrees_report {i : TaskId} {r : Report} {now : Instant}
    (hh : (Call.report i r now).IsHonest out) : (c.report i r now).2.store.Agrees out := by
  obtain ⟨copy, hcopy, rfl, hanswer⟩ := hh
  obtain ⟨g, hw, hallows⟩ := h.out copy hcopy
  obtain ⟨t, ht, ho⟩ := hw.exists_get?
  -- the copy and the stored task stand under one identifier, so they work out one formula
  have hid : t.id = copy.id := hs.table.indexed.id_eq ht
  rw [← hid] at ht hw ⊢
  obtain ⟨e, f, stamps, o, s', he, hid', ha, htasks, hout, hs', hexpr⟩ := report_eq hs ht r now
  have hsound : s'.tasks.Sound := htasks ▸ TaskTable.Sound.reported ht r now hs.table
  have hkeeps : c.store.tasks.Keeps s'.tasks := htasks ▸ TaskTable.keeps_reported ht r now
  rw [hs']
  refine h.update hkeeps (fun j u hu => ?_) fun hall j e' f' he' hp => ?_
  · have hst := c.store.tasks.standing_reported t r now j
    rw [← htasks, hu, Option.map_some] at hst
    split at hst
    · rename_i hj
      have hst := Option.some.inj hst
      have howner := Task.owner_eq_of_standing_eq hst
      rw [(r.fields_apply t now).2.1, ho] at howner
      exact .inl ⟨g, howner ▸ hj ▸ hw.mono hkeeps,
        (Report.agrees_apply (hallows r hanswer) t now).congr hst⟩
    · obtain ⟨v, hv, hst⟩ := Option.map_eq_some_iff.1 hst.symm
      exact .inr ⟨v, hv, hst.symm⟩
  · rw [hexpr] at he'
    split at he'
    · cases he'
      rw [(e.recomputed_fields o now).2.1] at hp
      cases ha.parse.symm.trans hp
      have hholds : s'.tasks.Holds c.times e.id stamps f :=
        htasks ▸ ha.holds.reported ht r now hs.table.indexed
      exact .inl ((h.expressions he hp).recomputed (hholds.allows_outcome hsound hall hout) now)
    · exact .inr he'

theorem agrees_nextTask (hproper : c.store.tasks.Proper) (asked started : Instant) :
    (c.nextTask asked started).2.store.Agrees (out ++ (c.nextTask asked started).1.toList) := by
  have h' : (c.nextTask asked started).2.store.Agrees out :=
    h.calm (expressions_nextTask c asked started) (calm_nextTask hs.table asked started).2
  cases hn : c.nextTask asked started with
  | mk handed c' =>
    rw [hn] at h'
    cases handed with
    | none => simpa using h'
    | some t =>
      have h₁ : (c.requeueOverdue asked).2.store.Agrees out :=
        h.calm rfl (calm_requeueOverdue hs.table asked).2
      obtain ⟨u, op, l, r, a, b, hu, -, rfl, htable, hready⟩ := exists_ready hproper hn rfl
      obtain ⟨g, hw, -⟩ := h₁.tasks hu
      obtain ⟨left, right, rfl, hwl, hwr⟩ := hready.worksOut hu hw
      have hkeeps : (c.requeueOverdue asked).2.store.tasks.Keeps c'.store.tasks :=
        htable ▸ TaskTable.keeps_put (t := u.start started) hu rfl
      exact h'.snoc (t := u.start started) (hw.mono hkeeps) fun q hq =>
        (hready.start started).allows_answer hwl hwr h₁.tasks hq

theorem agrees_after (hproper : c.store.tasks.Proper) {call : Call} (hf : call.Fresh c.store)
    (hh : call.IsHonest out) : (c.after call).store.Agrees (out ++ (c.handsOut call).toList) := by
  cases call with
  | submit text stamp stamps now =>
    simp only [handsOut, Option.toList_none, List.append_nil]
    exact agrees_submit h hs hf
  | nextTask asked started => exact agrees_nextTask h hs hproper asked started
  | requeue now =>
    simp only [handsOut, Option.toList_none, List.append_nil]
    exact h.calm rfl (calm_requeueOverdue hs.table now).2
  | report id r now =>
    simp only [handsOut, Option.toList_none, List.append_nil]
    exact agrees_report h hs hh

omit h hs in
theorem agrees_run (times : OperationTimes) (lease : Option Duration) {calls : List Call}
    (hd : (calls.flatMap Call.draws).Nodup) (hh : (initial times lease).Honest calls) :
    ((initial times lease).run calls).store.Agrees ((initial times lease).handedOut calls) := by
  revert hh
  refine run_induction times lease [] (P := fun calls => (initial times lease).Honest calls →
    ((initial times lease).run calls).store.Agrees ((initial times lease).handedOut calls)) ?_ ?_ hd
  · exact fun _ => .empty
  · rintro calls call _ rfl hs hf ih hh
    obtain ⟨hh, hcall⟩ := hh.snoc
    rw [run_snoc, handedOut_snoc]
    exact agrees_after (ih hh) hs (proper_run .empty calls) hf hcall

omit h hs in
/--
If every report is the answer to a task that was handed out, whatever its age, a completed
expression has the value that direct evaluation finds, and a failed one divides by zero and says so.
-/
theorem result_eq_eval (times : OperationTimes) (lease : Option Duration) (calls : List Call)
    (hd : (calls.flatMap Call.draws).Nodup) (hh : (initial times lease).Honest calls)
    {i : ExpressionId} {e : Expression}
    (he : ((initial times lease).run calls).store.expressions[i]? = some e)
    {f : Formula} (hp : Formula.parse e.text = .ok f) :
    (e.status = .completed → ∃ v, e.result = some v ∧ f.eval = .ok v) ∧
      (e.status = .failed → f.eval = .error .divisionByZero ∧
        e.error = some "division by zero") := by
  have hs := sound_run times lease hd
  have ha := agrees_run times lease hd hh
  exact ha.eval_eq hs he hp

omit h hs in
/-- The sum is handed out twice, as its lease runs out, and reported twice. -/
theorem result_eq_eval_of_quotient :
    let c := (initial .instant (some (.ofMillis 10))).run [.submitText "6/(1+2)" 0,
      .nextTask (Evaluation.clock 1) (Evaluation.clock 2),
      .nextTask (Evaluation.clock 20) (Evaluation.clock 21),
      .report (Id.ofNat 4) (.completed 3.0) (Evaluation.clock 22),
      .nextTask (Evaluation.clock 23) (Evaluation.clock 24),
      .report (Id.ofNat 4) (.completed 3.0) (Evaluation.clock 25),
      .report (Id.ofNat 5) (.completed 2.0) (Evaluation.clock 26)]
    ∃ e v, c.store.expressions[(Id.ofNat 0 : ExpressionId)]? = some e ∧ e.result = some v ∧
      (Formula.binary .div (.number 6.0) (.binary .add (.number 1.0) (.number 2.0))).eval =
        .ok v := by
  intro c
  have he : c.store.expressions[(Id.ofNat 0 : ExpressionId)]? = some
      { id := Id.ofNat 0, text := "6/(1+2)", status := .completed, result := some 2.0,
        error := none,
        createdAt := Evaluation.clock 0, updatedAt := Evaluation.clock 26,
        taskIds := [Id.ofNat 1, Id.ofNat 2, Id.ofNat 3, Id.ofNat 4, Id.ofNat 5] } := by decide
  obtain ⟨v, hv, heval⟩ := (result_eq_eval .instant (some (.ofMillis 10)) _ (by decide)
    (by unfold Honest; decide +kernel) he
    (f := .binary .div (.number 6.0) (.binary .add (.number 1.0) (.number 2.0)))
    rfl).1 rfl
  exact ⟨_, v, he, hv, heval⟩

end Coordinator

end Reckoner
