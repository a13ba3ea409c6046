import Reckoner.Proofs.Expression
import Reckoner.Proofs.Task.Derivation
import Reckoner.Proofs.Task.Dispatch

/-!
# Sound stores

Every stored expression has been refused and owns no task, or owns the tasks of its plan and follows
from them (`Sound`). In a sound store recomputing an expression never fails.
-/

namespace Reckoner

open TaskTable

namespace Store

/-! ## Soundness -/

structure Rejected (s : Store) (e : Expression) : Prop where
  parse : ∃ cause, Formula.parse e.text = .error cause ∧ e.error = some cause.message
  status : e.status = .failed
  tasks : s.tasksOf e.id = []
  taskIds : e.taskIds = []

structure Accepted (times : OperationTimes) (s : Store) (e : Expression) (f : Formula)
    (stamps : Nat → Stamp) : Prop where
  parse : Formula.parse e.text = .ok f
  holds : s.tasks.Holds times e.id stamps f
  taskIds : e.taskIds = (f.plan times e.id stamps).map Task.id
  follows : e.Follows (s.tasksOf e.id)

structure Sound (times : OperationTimes) (s : Store) : Prop where
  table : s.tasks.Sound
  id_eq : ∀ ⦃i : ExpressionId⦄ ⦃e : Expression⦄, s.expressions[i]? = some e → e.id = i
  coherent : ∀ ⦃i : ExpressionId⦄ ⦃e : Expression⦄, s.expressions[i]? = some e → e.Coherent
  owner : ∀ ⦃i t⦄, s.tasks.get? i = some t → ∃ e, s.expressions[t.owner]? = some e
  filed : ∀ ⦃i : ExpressionId⦄ ⦃e : Expression⦄, s.expressions[i]? = some e →
    s.Rejected e ∨ ∃ f stamps, s.Accepted times e f stamps

section
variable {times : OperationTimes} {s s' : Store} {e : Expression}

theorem Rejected.congr (h : s.Rejected e)
    (hs : (s'.tasksOf e.id).map Task.standing = (s.tasksOf e.id).map Task.standing) :
    s'.Rejected e := by
  obtain ⟨hp, hst, ht, hi⟩ := h
  rw [ht, List.map_nil, List.map_eq_nil_iff] at hs
  exact ⟨hp, hst, hs, hi⟩

theorem Accepted.congr {f : Formula} {stamps : Nat → Stamp} (h : s.Accepted times e f stamps)
    (hs : (s'.tasksOf e.id).map Task.standing = (s.tasksOf e.id).map Task.standing) :
    s'.Accepted times e f stamps :=
  ⟨h.parse, .of_standing h.holds hs, h.taskIds, h.follows.congr hs⟩

theorem Sound.empty (times : OperationTimes) : Store.empty.Sound times where
  table := .empty
  id_eq i e h := by simp [Store.empty] at h
  coherent i e h := by simp [Store.empty] at h
  owner i t h := by simp [Store.empty] at h
  filed i e h := by simp [Store.empty] at h

theorem Sound.calm (h : s.Sound times) (he : s'.expressions = s.expressions) (ht : s'.tasks.Sound)
    (hc : s.tasks.Calm s'.tasks) : s'.Sound times where
  table := ht
  id_eq i e hi := h.id_eq (he ▸ hi)
  coherent i e hi := h.coherent (he ▸ hi)
  owner i t hi := by
    obtain ⟨u, hu, hs⟩ := hc.exists_get? hi
    rw [he, Task.owner_eq_of_standing_eq hs]
    exact h.owner hu
  filed i e hi := by
    have hs := hc.ofOwner e.id
    exact (h.filed (he ▸ hi)).imp (·.congr hs) fun ⟨f, stamps, ha⟩ => ⟨f, stamps, ha.congr hs⟩

/-- One expression is filed anew, and the tasks of no other change their standing. -/
theorem Sound.update (h : s.Sound times) (ht : s'.tasks.Sound)
    (hexpr : ∀ j, s'.expressions[j]? = if e.id = j then some e else s.expressions[j]?)
    (hc : e.Coherent)
    (howner : ∀ i t, s'.tasks.get? i = some t → t.owner = e.id ∨ ∃ u, s.tasks.get? i = some u ∧
      u.owner = t.owner)
    (hother : ∀ o ≠ e.id, (s'.tasksOf o).map Task.standing = (s.tasksOf o).map Task.standing)
    (hfiled : s'.Rejected e ∨ ∃ f stamps, s'.Accepted times e f stamps) : s'.Sound times where
  table := ht
  id_eq i e' hi := by
    rw [hexpr] at hi
    split at hi
    · rename_i hid
      cases hi
      exact hid
    · exact h.id_eq hi
  coherent i e' hi := by
    rw [hexpr] at hi
    split at hi
    · cases hi
      exact hc
    · exact h.coherent hi
  owner i t hi := by
    rw [hexpr]
    split
    · exact ⟨e, rfl⟩
    · rename_i hid
      rcases howner i t hi with ho | ⟨u, hu, ho⟩
      · exact absurd ho.symm hid
      · rw [← ho]
        exact h.owner hu
  filed i e' hi := by
    rw [hexpr] at hi
    split at hi
    · cases hi
      exact hfiled
    · rename_i hid
      have hs := hother e'.id fun ho => hid (ho.symm.trans (h.id_eq hi))
      exact (h.filed hi).imp (·.congr hs) fun ⟨f, stamps, ha⟩ => ⟨f, stamps, ha.congr hs⟩

end

/-! ## Tasks and their owners -/

/-- A task of an expression that is not stored would be nobody's. -/
theorem idsOf_eq_nil {s : Store} (h : s.tasks.Indexed)
    (howner : ∀ ⦃i t⦄, s.tasks.get? i = some t → ∃ e, s.expressions[t.owner]? = some e)
    {i : ExpressionId} (hi : s.expressions[i]? = none) : s.tasks.idsOf i = [] := by
  refine List.eq_nil_iff_forall_not_mem.2 fun j hj => ?_
  obtain ⟨t, ht, rfl⟩ := h.mem_idsOf.1 hj
  obtain ⟨e, he⟩ := howner ht
  rw [hi] at he
  cases he

section
variable {times : OperationTimes} {s : Store} (h : s.Sound times)
include h

theorem Sound.mem_tasksOf {o : ExpressionId} {t : Task} :
    t ∈ s.tasksOf o ↔ s.tasks.get? t.id = some t ∧ t.owner = o := h.table.indexed.mem_ofOwner

theorem Sound.accepted_of_get? {i : TaskId} {t : Task} (ht : s.tasks.get? i = some t) :
    ∃ e f stamps, s.expressions[t.owner]? = some e ∧ e.id = t.owner ∧
      s.Accepted times e f stamps := by
  obtain ⟨e, he⟩ := h.owner ht
  have hid := h.id_eq he
  rcases h.filed he with hr | ⟨f, stamps, ha⟩
  · have hm : t ∈ s.tasksOf e.id := h.mem_tasksOf.2 ⟨by rw [h.table.indexed.id_eq ht, ht], hid.symm⟩
    -- a refused expression owns nothing
    rw [hr.tasks] at hm
    cases hm
  · exact ⟨e, f, stamps, he, hid, ha⟩

theorem Sound.taskIds_eq {i : ExpressionId} {e : Expression} (he : s.expressions[i]? = some e) :
    e.taskIds = s.tasks.idsOf e.id := by
  rw [← h.table.indexed.ids_ofOwner]
  rcases h.filed he with hr | ⟨f, stamps, ha⟩
  · rw [hr.taskIds, ← tasksOf, hr.tasks]
    rfl
  · rw [ha.taskIds, ha.holds.ids_ofOwner]

end

/-! ## Changes of expressions -/

theorem expression_eq_ok {s : Store} {i : ExpressionId} {e : Expression} :
    s.expression i = .ok e ↔ s.expressions[i]? = some e := by
  unfold expression
  split <;> simp_all

theorem task_eq_ok {s : Store} {i : TaskId} {t : Task} : s.task i = .ok t ↔
    s.tasks.get? i = some t := by
  unfold task
  split <;> simp_all

theorem getElem?_insert (s : Store) (i : ExpressionId) (e : Expression) (j : ExpressionId) :
    (s.expressions.insert i e)[j]? = if i = j then some e else s.expressions[j]? := by
  rw [Std.TreeMap.getElem?_insert]
  simp only [Std.compare_eq_iff_eq]

theorem getElem?_createExpression (s : Store) (text : String) (stamp : Stamp) (j : ExpressionId) :
    (s.createExpression text stamp).2.expressions[j]? =
      if ⟨stamp.uuid⟩ = j then some (Expression.create text stamp) else s.expressions[j]? :=
  s.getElem?_insert _ _ j

theorem modifyExpression_eq_ok {s : Store} {i : ExpressionId} {e : Expression}
    (he : s.expressions[i]? = some e) (f : Expression → Expression) (now : Instant) :
    ∃ s', s.modifyExpression i f now = .ok ((f e).touch now, s') ∧ s'.tasks = s.tasks ∧
      ∀ j, s'.expressions[j]? = if i = j then some ((f e).touch now) else s.expressions[j]? := by
  simp only [modifyExpression, expression_eq_ok.2 he, bind, Except.bind]
  exact ⟨_, rfl, rfl, s.getElem?_insert i _⟩

theorem of_modifyExpression_eq_ok {s s' : Store} {i : ExpressionId} {f : Expression → Expression}
    {e : Expression} {now : Instant} (h : s.modifyExpression i f now = .ok (e, s')) :
    ∃ old, s.expressions[i]? = some old ∧ s' = { s with
      expressions := s.expressions.insert i ((f old).touch now) } := by
  simp only [modifyExpression, bind, Except.bind] at h
  split at h
  · cases h
  · rename_i old hold
    cases h
    exact ⟨old, expression_eq_ok.1 hold, rfl⟩

theorem of_recompute_eq_ok {s s' : Store} {i : ExpressionId} {status : ExpressionStatus}
    {now : Instant} (h : s.recompute i now = .ok (status, s')) :
    s' = s ∨ ∃ e o, s.expressions[i]? = some e ∧
      s' = { s with expressions := s.expressions.insert i (e.recomputed o now) } := by
  simp only [recompute, bind, Except.bind] at h
  split at h
  · cases h
  · rename_i e he
    split at h
    · cases h
      exact .inl rfl
    · rename_i ht
      split at h
      · cases h
      · rename_i o ho
        cases h
        refine .inr ⟨e, o, expression_eq_ok.1 he, ?_⟩
        cases o <;> simp only [Expression.recomputed, if_neg ht]

theorem recompute_eq_ok {s : Store} {i : ExpressionId} {e : Expression} {o : Outcome}
    (he : s.expressions[i]? = some e) (ho : Outcome.ofTasks (s.tasksOf i) = .ok o) (now : Instant) :
    ∃ s', s.recompute i now = .ok ((e.recomputed o now).status, s') ∧ s'.tasks = s.tasks ∧
      ∀ j, s'.expressions[j]? = if i = j then some (e.recomputed o now) else s.expressions[j]? := by
  simp only [recompute, expression_eq_ok.2 he, bind, Except.bind]
  by_cases ht : e.status.isTerminal = true
  · rw [if_pos ht, e.recomputed_of_terminal o now ht]
    refine ⟨s, rfl, rfl, fun j => ?_⟩
    split
    · rename_i hij
      rw [← hij, he]
    · rfl
  · unfold Expression.recomputed
    simp only [if_neg ht, ho]
    refine ⟨_, rfl, rfl, fun j => ?_⟩
    cases o <;> exact s.getElem?_insert i _ j

end Store

end Reckoner
