import Reckoner.Coordinator
import Reckoner.Proofs.Task.Graph
import Reckoner.Proofs.Task.Slots

/-!
# The shape of plans

A plan lists one task for each part of its formula, dependencies before consumers, and every task
but the root is consumed once. So the graph of a plan is a tree, and no plan is refused.
-/

namespace Reckoner

theorem Operator.operation_ne_value (op : Operator) : op.operation ≠ .value := by cases op <;>
    simp [operation]

theorem Operator.operation_injective {a b : Operator} (h : a.operation = b.operation) : a = b := by
  cases a <;> cases b <;> first | rfl | cases h

namespace Plan

variable (times : OperationTimes) (owner : ExpressionId) (stamps : Nat → Stamp)

theorem tasks_binary (k : Nat) (op : Operator) (left right : Formula) :
    (ofFormula times owner stamps k (.binary op left right)).tasks =
      (ofFormula times owner stamps k left).tasks ++
        (ofFormula times owner stamps (k + left.size) right).tasks ++
          [.composite owner op.operation (ofFormula times owner stamps k left).root
            (ofFormula times owner stamps (k + left.size) right).root (times.of op.operation)
            (stamps (k + left.size + right.size))] := rfl

theorem root_mem_tasks (p : Plan) : p.root ∈ p.tasks :=
  List.mem_append_right _ (List.mem_singleton_self _)

theorem ids_tasks (f : Formula) : ∀ k, (ofFormula times owner stamps k f).tasks.map Task.id =
    (List.range' k f.size).map fun i => ⟨(stamps i).uuid⟩ := by
  induction f with
  | number v => intro k; rfl
  | binary op left right ihl ihr =>
    intro k
    have hsize : (Formula.binary op left right).size = left.size + (right.size + 1) := by
      simp only [Formula.size]; omega
    rw [hsize, ← List.range'_append_1, ← List.range'_append_1]
    simp only [tasks_binary, List.map_append]
    rw [ihl, ihr, List.append_assoc]
    rfl

variable {times owner stamps}

theorem forall_mem_tasks {P : Task → Prop} (literal : ∀ v stamp, P (.literal owner v stamp))
    (composite : ∀ (op : Operator) l r duration stamp,
      P (.composite owner op.operation l r duration stamp))
    (f : Formula) : ∀ k, ∀ t ∈ (ofFormula times owner stamps k f).tasks, P t := by
  induction f with
  | number v =>
    intro k t ht
    cases List.mem_singleton.1 ht
    exact literal v _
  | binary op left right ihl ihr =>
    intro k t ht
    simp only [tasks_binary, List.mem_append, List.mem_singleton] at ht
    rcases ht with (ht | ht) | rfl
    · exact ihl k t ht
    · exact ihr _ t ht
    · exact composite op ..

variable {k : Nat} {f : Formula} {t : Task}

theorem owner_of_mem (ht : t ∈ (ofFormula times owner stamps k f).tasks) : t.owner = owner :=
  forall_mem_tasks (P := (·.owner = owner)) (fun _ _ => rfl) (fun _ _ _ _ _ => rfl) f k t ht

theorem coherent_of_mem (ht : t ∈ (ofFormula times owner stamps k f).tasks) : t.Coherent :=
  forall_mem_tasks (.literal_task owner) (fun op _ _ _ _ => .composite op.operation_ne_value ..)
    f k t ht

theorem status_of_mem (ht : t ∈ (ofFormula times owner stamps k f).tasks) :
    t.status = if t.operation = .value then .completed else .pending :=
  forall_mem_tasks (P := fun t => t.status = if t.operation = .value then .completed else .pending)
    (fun _ _ => rfl) (fun op _ _ _ _ => (if_neg op.operation_ne_value).symm) f k t ht

theorem not_failed_of_mem (ht : t ∈ (ofFormula times owner stamps k f).tasks) :
    t.status ≠ .failed := by
  rw [status_of_mem ht]
  split <;> simp

theorem not_processing_of_mem (ht : t ∈ (ofFormula times owner stamps k f).tasks) :
    t.status ≠ .processing := by
  rw [status_of_mem ht]
  split <;> simp

theorem source_mem_of_mem (ht : t ∈ (ofFormula times owner stamps k f).tasks) {source : TaskId}
    {value : Option Float} (hs : t.left = .result source value ∨ t.right = .result source value) :
    source ∈ t.dependencies := by
  revert hs
  refine forall_mem_tasks (P := fun t => t.left = .result source value ∨
    t.right = .result source value →
    source ∈ t.dependencies) ?_ ?_ f k t ht
  · intro v stamp hs
    simp [Task.literal] at hs
  · intro op l r duration stamp hs
    simp only [Task.composite, Task.asOperand, Operand.result.injEq] at hs ⊢
    rcases hs with ⟨rfl, -⟩ | ⟨rfl, -⟩ <;> simp

/-! ## The graph of a plan -/

theorem ordered_tasks (f : Formula) : ∀ k,
    TaskGraph.Ordered [] ((ofFormula times owner stamps k f).tasks.map Task.node) := by
  induction f with
  | number v => intro k; exact ⟨by simp [Task.node, ofFormula, Task.literal], trivial⟩
  | binary op left right ihl ihr =>
    intro k
    simp only [tasks_binary, List.map_append]
    refine ((ihl k).append ((ihr _).mono fun _ hi => ?_)).append ⟨?_, trivial⟩
    · cases hi
    · intro d hd
      simp only [Task.node, Task.composite, List.mem_cons, List.not_mem_nil, or_false] at hd
      rcases hd with rfl | rfl <;> simp [Task.node, tasks]

theorem consumed_tasks (f : Formula) : ∀ k,
    ((ofFormula times owner stamps k f).tasks.flatMap Task.dependencies).Perm
      ((ofFormula times owner stamps k f).before.map Task.id) := by
  induction f with
  | number v => intro k; simp [ofFormula, tasks, Task.literal]
  | binary op left right ihl ihr =>
    intro k
    have hl := ihl k
    have hr := ihr (k + left.size)
    simp only [ofFormula, tasks, List.flatMap_append, List.map_append, List.flatMap_cons,
      List.flatMap_nil,
      List.append_nil, List.map_cons, List.map_nil, Task.composite] at hl hr ⊢
    -- the roots of the operands, until now nobody's dependencies, are those of the operator
    refine ((hl.append hr).append_right _).trans ?_
    rw [List.append_assoc, List.append_assoc]
    refine List.Perm.append_left _ ?_
    rw [List.perm_iff_count]
    intro i
    simp only [List.count_append, List.count_cons, List.count_nil]
    omega

theorem dependency_mem_plan (ht : t ∈ f.plan times owner stamps) {d : TaskId}
    (hd : d ∈ t.dependencies) : d ∈ (f.plan times owner stamps).map Task.id := by
  have hm := (consumed_tasks f 0).mem_iff.1 (List.mem_flatMap.2 ⟨t, ht, hd⟩)
  rw [Formula.plan, tasks, List.map_append]
  exact List.mem_append_left _ hm

theorem tree (f : Formula) (k : Nat)
    (hn : ((ofFormula times owner stamps k f).tasks.map Task.id).Nodup) :
    TaskGraph.Tree ((ofFormula times owner stamps k f).before.map Task.node)
      (ofFormula times owner stamps k f).root.node where
  nodup := by simpa [tasks, Function.comp_def, Task.node] using hn
  ordered := by
    have ho : TaskGraph.Ordered [] ((ofFormula times owner stamps k f).tasks.map Task.node) :=
      ordered_tasks f k
    simpa [tasks] using ho
  consumed := by
    have hc : ((ofFormula times owner stamps k f).tasks.flatMap Task.dependencies).Perm _ :=
      consumed_tasks f k
    simpa [tasks, Function.comp_def, Task.node, List.flatMap_map] using hc

end Plan

end Reckoner
