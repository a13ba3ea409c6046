import Reckoner.Proofs.Task.Changes
import Reckoner.Proofs.Task.Dispatch
import Reckoner.Worker.Assignment

/-!
# Tasks that are ready

A stored task is a literal or an operation on the results of its two dependencies (`Formed`). In a
sound table an eligible task is the latter, and its slots hold the results of two completed tasks
(`Ready`): dispatch only checks that the slots are filled, with what is left to the table.
-/

namespace Reckoner

def Task.Formed (t : Task) : Prop :=
  t.operation = .value ∨ ∃ (op : Operator) (l r : TaskId), t.operation = op.operation ∧
    t.left.source? = some l ∧ t.right.source? = some r ∧ t.dependencies = [l, r]

theorem Task.Formed.of_blueprint {t u : Task} (h : t.Formed) (hb : u.blueprint = t.blueprint) :
    u.Formed := by
  obtain ⟨-, -, hop, hd, -, -⟩ := fields_of_blueprint hb
  obtain ⟨hl, hr⟩ := sources_of_blueprint hb
  rcases h with hv | ⟨op, l, r, hop', hl', hr', hd'⟩
  · exact .inl (hop.trans hv)
  · exact .inr ⟨op, l, r, hop.trans hop', hl.trans hl', hr.trans hr', hd.trans hd'⟩

theorem Plan.formed_of_mem {times : OperationTimes} {owner : ExpressionId} {stamps : Nat → Stamp}
    {k : Nat} {f : Formula} {t : Task} (ht : t ∈ (ofFormula times owner stamps k f).tasks) :
    t.Formed :=
  forall_mem_tasks (fun _ _ => .inl rfl) (fun op l r _ _ =>
    .inr ⟨op, l.id, r.id, rfl, rfl, rfl, rfl⟩) f k t ht

namespace TaskTable

/-! ## Tables that any run leaves -/

structure Proper (table : TaskTable) : Prop where
  sound : table.Sound
  formed : ∀ ⦃i t⦄, table.get? i = some t → t.Formed

namespace Proper

theorem empty : TaskTable.empty.Proper := ⟨.empty, fun i t h => by simp at h⟩

variable {table : TaskTable} (h : table.Proper)
include h

theorem calm {table' : TaskTable} (hs : table'.Sound) (hc : table.Calm table') : table'.Proper where
  sound := hs
  formed i u hu := by
    obtain ⟨t, ht, e⟩ := hc.exists_get? hu
    exact (h.formed ht).of_blueprint (Task.blueprint_eq_of_standing_eq e)

theorem reported {t : Task} (ht : table.get? t.id = some t) (r : Report) (now : Instant) :
    (table.reported t r now).Proper where
  sound := .reported ht r now h.sound
  formed i u hu := by
    obtain ⟨v, hv, e⟩ := exists_get?_of_reported ht r now hu
    exact (h.formed hv).of_blueprint e

theorem arrived_plan {times : OperationTimes} {owner : ExpressionId} {stamps : Nat → Stamp}
    {f : Formula} (hn : ((f.plan times owner stamps).map Task.id).Nodup)
    (hf : ∀ t ∈ f.plan times owner stamps, table.get? t.id = none) :
    (table.arrived (f.plan times owner stamps)).Proper where
  sound := h.sound.arrived_plan hn hf
  formed i u hu := by
    obtain ⟨t, ⟨ht, -⟩ | ht, e⟩ := exists_get?_of_arrived hn hu
    · exact (Plan.formed_of_mem ht).of_blueprint (Task.blueprint_eq_of_standing_eq e)
    · exact (h.formed ht).of_blueprint (Task.blueprint_eq_of_standing_eq e)

end Proper

/-! ## Ready tasks -/

structure Ready (table : TaskTable) (t : Task) (op : Operator) (l r : Task) (a b : Float) :
    Prop where
  operation : t.operation = op.operation
  dependencies : t.dependencies = [l.id, r.id]
  stored : table.get? l.id = some l ∧ table.get? r.id = some r
  completed : l.status = .completed ∧ r.status = .completed
  results : l.result = some a ∧ r.result = some b
  slots : t.left = .result l.id (some a) ∧ t.right = .result r.id (some b)

namespace Ready

variable {table : TaskTable} {t l r : Task} {op : Operator} {a b : Float}
  (h : table.Ready t op l r a b)
include h

theorem congr {table' : TaskTable} (hl : table'.get? l.id = some l)
    (hr : table'.get? r.id = some r) : table'.Ready t op l r a b :=
  ⟨h.operation, h.dependencies, ⟨hl, hr⟩, h.completed, h.results, h.slots⟩

theorem start (now : Instant) : table.Ready (t.start now) op l r a b :=
  ⟨h.operation, h.dependencies, h.stored, h.completed, h.results, h.slots⟩

theorem operandValues_eq : t.operandValues = some (a, b) := by
  rw [Task.operandValues, h.slots.1, h.slots.2]
  rfl

theorem ofTask_eq : Assignment.ofTask t = ⟨t.id, a, b, op.operation, t.duration⟩ := by
  rw [Assignment.ofTask, h.slots.1, h.slots.2, h.operation]
  rfl

theorem worksOut {owner : ExpressionId} {f : Formula} (ht : table.get? t.id = some t)
    (hw : table.WorksOut owner t.id f) : ∃ left right, f = .binary op left right ∧
      table.WorksOut owner l.id left ∧ table.WorksOut owner r.id right := by
  cases hw with
  | number ht' _ hop _ =>
    cases ht.symm.trans ht'
    exact absurd (h.operation.symm.trans hop) op.operation_ne_value
  | binary op' ht' _ hop _ _ hd hwl hwr =>
    cases ht.symm.trans ht'
    cases Operator.operation_injective (h.operation.symm.trans hop)
    cases h.dependencies.symm.trans hd
    exact ⟨_, _, rfl, hwl, hwr⟩

end Ready

theorem Sound.slot_eq {table : TaskTable} (h : table.Sound) {i : TaskId} {u : Task}
    (hu : table.get? i = some u) (hc : u.status = .completed) {dependencies : List TaskId}
    {o : Operand} (hf : table.Fits [] dependencies o) (hs : o.source? = some i) :
    ∃ a, u.id = i ∧ u.result = some a ∧ o = .result i (some a) := by
  obtain ⟨a, ha⟩ := Option.isSome_iff_exists.1 ((h.coherent hu).result.2 hc)
  have hresult : table.resultOf i = some a := by
    rw [resultOf, hu, Option.bind_some, Task.completedResult, if_pos hc, ha]
  have hv := hf.value_eq hs hresult
  cases o with
  | literal v => cases hs
  | result s v =>
    cases hs
    cases hv
    exact ⟨a, h.indexed.id_eq hu, ha, rfl⟩

theorem Proper.exists_ready {table : TaskTable} (h : table.Proper) {i : TaskId} {t : Task}
    (ht : table.get? i = some t) (he : table.isEligible t = true) :
    ∃ op l r a b, table.Ready t op l r a b := by
  obtain ⟨hp, hdeps, -⟩ := isEligible_iff.1 he
  rcases h.formed ht with hv | ⟨op, l, r, hop, hl, hr, hd⟩
  · -- literals never wait
    rcases (h.sound.coherent ht).literal hv with hs | hs <;> rw [hp] at hs <;> cases hs
  · obtain ⟨u, hu, huc⟩ := hdeps l (by rw [hd]; exact List.mem_cons_self)
    obtain ⟨v, hv, hvc⟩ := hdeps r (by rw [hd]; exact List.mem_cons_of_mem _ List.mem_cons_self)
    obtain ⟨hfl, hfr⟩ := h.sound.filled ht
    obtain ⟨a, rfl, ha, hsl⟩ := h.sound.slot_eq hu huc hfl hl
    obtain ⟨b, rfl, hb, hsr⟩ := h.sound.slot_eq hv hvc hfr hr
    exact ⟨op, u, v, a, b, hop, hd, ⟨hu, hv⟩, ⟨huc, hvc⟩, ⟨ha, hb⟩, hsl, hsr⟩

end TaskTable

end Reckoner
