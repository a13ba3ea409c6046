import Reckoner.Proofs.Coordinator.Sound

/-!
# Plans in post-order

The plan of a formula is its nodes in post-order, one task for each: an operator stands behind the
tasks of its operands and waits for the last one of either. This is said by places, wherever in a
longer list the tasks of a formula begin, and nothing of the formula is lost: it is read off again
from what the tasks depend on.
-/

namespace Reckoner

namespace Formula

def literal? : Formula → Option Float
  | number v => some v
  | binary .. => none

/-! ## Reading plans -/

def operatorOf? (op : Operation) : Option Operator :=
  [Operator.add, .sub, .mul, .div].find? fun o => o.operation == op

def gather (seen : List (TaskId × Formula)) (t : Task) : Option (List (TaskId × Formula)) :=
  match t.operation, t.dependencies with
  | .value, [] => t.result.map fun v => (t.id, number v) :: seen
  | op, [l, r] =>
    do return (t.id, binary (← operatorOf? op) (← seen.lookup l) (← seen.lookup r)) :: seen
  | _, _ => none

/-- The formula that the last one of the tasks works out. -/
def ofTasks? (tasks : List Task) : Option Formula := do
  let seen ← tasks.foldlM gather []
  return (← seen.head?).2

theorem operatorOf?_operation (op : Operator) : operatorOf? op.operation = some op := by
  cases op <;> rfl

end Formula

namespace Plan

/-! ## Places -/

structure Joins (op : Operator) (left right : Formula) (l r t : Task) : Prop where
  operation : t.operation = op.operation
  status : t.status = .pending
  dependencies : t.dependencies = [l.id, r.id]
  left_source : t.left.source? = some l.id
  right_source : t.right.source? = some r.id
  left_value : t.left.value? = left.literal?
  right_value : t.right.value? = right.literal?

/--
The tasks from a place on are those of the formula, one for each node, operands before their
operator.
-/
def Lists (tasks : List Task) : (place : Nat) → Formula → Prop
  | place, .number v => ∃ t, tasks[place]? = some t ∧ t.operation = .value ∧ t.status = .completed ∧
      t.result = some v ∧ t.dependencies = []
  | place, .binary op left right =>
    Lists tasks place left ∧ Lists tasks (place + left.size) right ∧
      ∃ l r t, tasks[place + left.size - 1]? = some l ∧
        tasks[place + left.size + right.size - 1]? = some r ∧
        tasks[place + left.size + right.size]? = some t ∧ Joins op left right l r t

/-- Appends the tasks of a formula to those that are listed; the root is known by its place. -/
def grow (times : OperationTimes) (owner : ExpressionId) (stamps : Nat → Stamp)
    (listed : List Task) :
    Formula → Option (List Task × Nat)
  | .number v => some (listed ++ [.literal owner v (stamps listed.length)], listed.length)
  | .binary op left right => do
    let (listed, l) ← grow times owner stamps listed left
    let (listed, r) ← grow times owner stamps listed right
    return (listed ++
      [.composite owner op.operation (← listed[l]?) (← listed[r]?) (times.of op.operation)
        (stamps listed.length)], listed.length)

variable (times : OperationTimes) (owner : ExpressionId) (stamps : Nat → Stamp)

theorem length_tasks (f : Formula) (k : Nat) :
    (ofFormula times owner stamps k f).tasks.length = f.size := by
  rw [← List.length_map Task.id, ids_tasks, List.length_map, List.length_range']

theorem getElem?_root (f : Formula) (k : Nat) (before after : List Task) :
    (before ++ (ofFormula times owner stamps k f).tasks ++ after)[before.length + f.size - 1]? =
      some (ofFormula times owner stamps k f).root := by
  have hlength := length_tasks times owner stamps f k
  generalize ofFormula times owner stamps k f = p at hlength
  rw [tasks, List.length_append, List.length_singleton] at hlength
  have hplace : before.length + f.size - 1 = (before ++ p.before).length := by
    rw [List.length_append]
    omega
  rw [hplace, tasks]
  simp

theorem value?_asOperand_root (f : Formula) (k : Nat) :
    (ofFormula times owner stamps k f).root.asOperand.value? = f.literal? := by
  cases f <;> rfl

theorem joins_composite (op : Operator) (left right : Formula) (k m : Nat) (stamp : Stamp) :
    Joins op left right (ofFormula times owner stamps k left).root
      (ofFormula times owner stamps m right).root
      (.composite owner op.operation (ofFormula times owner stamps k left).root
        (ofFormula times owner stamps m right).root (times.of op.operation) stamp) where
  operation := rfl
  status := rfl
  dependencies := rfl
  left_source := rfl
  right_source := rfl
  left_value := value?_asOperand_root times owner stamps left k
  right_value := value?_asOperand_root times owner stamps right m

theorem lists_tasks (f : Formula) : ∀ (k : Nat) (before after : List Task),
    Lists (before ++ (ofFormula times owner stamps k f).tasks ++ after) before.length f := by
  induction f with
  | number v =>
    intro k before after
    exact ⟨.literal owner v (stamps k), by simp [ofFormula, tasks], rfl, rfl, rfl, rfl⟩
  | binary op left right ihl ihr =>
    intro k before after
    have hjoins := joins_composite times owner stamps op left right k
      (k + left.size) (stamps (k + left.size + right.size))
    have hleft := ihl k before
    have hright := ihr (k + left.size)
    have hl := getElem?_root times owner stamps left k before
    have hr := getElem?_root times owner stamps right (k + left.size)
    have hsize := length_tasks times owner stamps left k
    have hsize' := length_tasks times owner stamps right (k + left.size)
    rw [tasks_binary]
    generalize Task.composite .. = t at hjoins ⊢
    generalize (ofFormula times owner stamps k left).root = l at *
    generalize (ofFormula times owner stamps (k + left.size) right).root = r at *
    generalize (ofFormula times owner stamps k left).tasks = ls at *
    generalize (ofFormula times owner stamps (k + left.size) right).tasks = rs at *
    -- the same list, seen around the tasks of the left operand, of the right one, and the operator
    have hls : before ++ (ls ++ rs ++ [t]) ++ after = before ++ ls ++ (rs ++ t :: after) := by simp
    have hrs : before ++ (ls ++ rs ++ [t]) ++ after = before ++ ls ++ rs ++ t :: after := by simp
    have hplace : (before ++ ls).length = before.length + left.size := by
      rw [List.length_append, hsize]
    refine ⟨hls ▸ hleft _, ?_, l, r, t, hls ▸ hl _, ?_, ?_, hjoins⟩
    · rw [hrs, ← hplace]
      exact hright _ _
    · rw [hrs, ← hplace]
      exact hr _ _
    · rw [hrs, ← hplace, ← hsize', ← List.length_append]
      simp

theorem grow_eq (f : Formula) : ∀ listed : List Task, grow times owner stamps listed f =
    some (listed ++ (ofFormula times owner stamps listed.length f).tasks,
      listed.length + f.size - 1) := by
  induction f with
  | number v => intro listed; rfl
  | binary op left right ihl ihr =>
    intro listed
    have hl := getElem?_root times owner stamps left listed.length listed
    have hr := getElem?_root times owner stamps right
      (listed.length + left.size)
      (listed ++ (ofFormula times owner stamps listed.length left).tasks) []
    have hsize := length_tasks times owner stamps left listed.length
    have hsize' := length_tasks times owner stamps right
      (listed.length + left.size)
    simp only [List.append_nil, List.length_append, hsize] at hr
    simp only [grow, ihl, ihr, List.length_append, hsize, hsize', Option.bind_eq_bind,
      Option.bind_some, hl, hr,
      tasks_binary, Formula.size]
    have hplace : listed.length + left.size + right.size =
        listed.length + (1 + left.size + right.size) - 1 := by
      omega
    rw [hplace, List.append_assoc, List.append_assoc, List.append_assoc]
    rfl

/-! ## What is read off a plan -/

theorem lookup_append_of_notMem {parts seen : List (TaskId × Formula)} {i : TaskId}
    (h : i ∉ parts.map Prod.fst) : (parts ++ seen).lookup i = seen.lookup i := by
  have hnone : parts.lookup i = none := by
    rw [List.lookup_eq_none_iff]
    intro p hp
    have hne : i ≠ p.1 := fun e => h (e ▸ List.mem_map_of_mem hp)
    simpa using hne
  rw [List.lookup_append, hnone, Option.none_or]

theorem Joins.gather {op : Operator} {left right : Formula} {l r t : Task}
    (h : Joins op left right l r t) {seen : List (TaskId × Formula)}
    (hl : seen.lookup l.id = some left) (hr : seen.lookup r.id = some right) :
    Formula.gather seen t = some ((t.id, .binary op left right) :: seen) := by
  simp only [Formula.gather, h.operation, h.dependencies, Formula.operatorOf?_operation, hl, hr]
  cases op <;> rfl

/--
The tasks of a formula, behind any others, add it under its root and its parts under their tasks.
-/
theorem foldlM_gather_tasks (f : Formula) : ∀ k,
    ((ofFormula times owner stamps k f).tasks.map Task.id).Nodup → ∀ seen, ∃ parts :
    List (TaskId × Formula),
      (ofFormula times owner stamps k f).tasks.foldlM Formula.gather seen =
        some (((ofFormula times owner stamps k f).root.id, f) :: parts ++ seen) ∧
      parts.map Prod.fst = ((ofFormula times owner stamps k f).before.map Task.id).reverse := by
  induction f with
  | number v =>
    intro k _ seen
    exact ⟨[], rfl, rfl⟩
  | binary op left right ihl ihr =>
    intro k hn seen
    rw [tasks_binary] at hn
    generalize hl : ofFormula times owner stamps k left = l at hn
    generalize hr : ofFormula times owner stamps (k + left.size) right = r at hn
    rw [List.map_append, List.map_append, List.nodup_append, List.nodup_append] at hn
    obtain ⟨⟨hnl, hnr, hdisjoint⟩, -⟩ := hn
    obtain ⟨ps, hps, hkeys⟩ := ihl k (hl ▸ hnl) seen
    obtain ⟨qs, hqs, hkeys'⟩ := ihr (k + left.size) (hr ▸ hnr) ((l.root.id, left) :: ps ++ seen)
    rw [hl] at hps hkeys
    rw [hr] at hqs hkeys'
    -- the root of the left operand is none of the tasks of the right one, so it is found behind
    -- them
    have hnot : l.root.id ∉ (((r.root.id, right) :: qs).map Prod.fst) := by
      intro hm
      have hr' : l.root.id ∈ r.tasks.map Task.id := by
        rw [List.map_cons, hkeys', List.mem_cons, List.mem_reverse] at hm
        rw [tasks, List.map_append, List.mem_append]
        exact hm.symm.imp_right fun e => by simp [e]
      exact hdisjoint _ (List.mem_map_of_mem l.root_mem_tasks) _ hr' rfl
    have hleft : (((r.root.id, right) :: qs) ++ ((l.root.id, left) :: ps ++ seen)).lookup
        l.root.id = some left := by
      rw [lookup_append_of_notMem hnot]
      simp
    refine ⟨(r.root.id, right) :: qs ++ (l.root.id, left) :: ps, ?_, ?_⟩
    · have hjoins := joins_composite times owner stamps op left right k (k + left.size)
        (stamps (k + left.size + right.size))
      rw [hl, hr] at hjoins
      have hgather := hjoins.gather hleft (by simp)
      rw [tasks_binary, hl, hr, List.foldlM_append, List.foldlM_append, hps, Option.bind_eq_bind,
        Option.bind_some, hqs, Option.bind_some, List.foldlM_cons, hgather]
      simp [ofFormula, hl, hr]
    · simp [hkeys, hkeys', ofFormula, hl, hr, tasks]

end Plan

/--
The plan of a formula lists its nodes in post-order, an operator behind its operands, and waiting
for the last task of either. It is what appending the tasks one by one comes to, the formula can be
read off it, and its graph is a tree with the last task for its root: a text that can be read is
never refused.
-/
theorem postOrder_plan (f : Formula) (times : OperationTimes) (owner : ExpressionId)
    (stamps : Nat → Stamp) (hn : ((List.range f.size).map fun k => (stamps k).uuid).Nodup) :
    let tasks := f.plan times owner stamps
    tasks.length = f.size ∧ Plan.Lists tasks 0 f ∧ (∀ t ∈ tasks, t.owner = owner) ∧
      Plan.grow times owner stamps [] f = some (tasks, f.size - 1) ∧
      (∀ k t, tasks[k]? = some t → ∀ d ∈ t.dependencies, d ∈ (tasks.take k).map Task.id) ∧
      Formula.ofTasks? tasks = some f ∧
      (∃ g t, TaskGraph.ofTasks tasks = .ok g ∧ g.isTree = true ∧ tasks.getLast? = some t ∧
        g.root = some t.id) ∧
      ∀ (c : Coordinator) (text : String) (stamp : Stamp) (now : Instant), c.Reachable →
        Formula.parse text = .ok f → (Call.submit text stamp stamps now).Fresh c.store →
        (c.submit text stamp stamps now).1 = .ok ⟨stamp.uuid⟩ := by
  intro tasks
  have hids : (tasks.map Task.id).Nodup := by
    have hmap : tasks.map Task.id = ((List.range f.size).map fun k => (stamps k).uuid).map
        Id.mk := by
      rw [Formula.ids_plan, List.map_map]
      rfl
    rw [hmap]
    exact hn.map fun a b e => (Id.mk.inj e)
  refine ⟨Plan.length_tasks times owner stamps f 0, ?_, ?_, ?_, ?_, ?_, ?_, ?_⟩
  · have hlists := Plan.lists_tasks times owner stamps f 0 [] []
    rwa [List.nil_append, List.append_nil] at hlists
  · exact fun t ht => Plan.owner_of_mem ht
  · have hgrow := Plan.grow_eq times owner stamps f []
    rwa [List.length_nil, List.nil_append, Nat.zero_add] at hgrow
  · intro k t ht d hd
    have hordered : TaskGraph.Ordered [] (tasks.map Task.node) := Plan.ordered_tasks f 0
    have hnode : (tasks.map Task.node)[k]? = some t.node := by
      rw [List.getElem?_map, ht, Option.map_some]
    rcases hordered.mem_take hnode hd with hm | hm
    · cases hm
    · rwa [← List.map_take, List.map_map] at hm
  · obtain ⟨parts, hparts, -⟩ := Plan.foldlM_gather_tasks times owner stamps f 0 hids []
    have hread : tasks.foldlM Formula.gather [] = _ := hparts
    rw [Formula.ofTasks?, hread]
    rfl
  · have htree := Plan.tree f 0 hids
    exact ⟨_, _, htree.ofTasks (by simp [tasks, Formula.plan, Plan.tasks]), htree.isTree,
      List.getLast?_concat, htree.root_eq⟩
  · intro c text stamp now hc hp hf
    obtain ⟨hn', hold⟩ := hf.plan hp c.times ⟨stamp.uuid⟩
    obtain ⟨o, s', hs', -⟩ := Coordinator.submit_eq_of_ok hc.sound hp now
      (hf.expressions _ Call.stamp_mem_draws) hn' hold
    rw [hs']

/-- The plan of `(6-2)*3` and its submission. -/
theorem postOrder_plan_of_product :
    let stamps := fun k => Evaluation.stamp (k + 1)
    let f : Formula := .binary .mul (.binary .sub (.number 6.0) (.number 2.0)) (.number 3.0)
    ((List.range 5).map fun k => (stamps k).uuid).Nodup ∧ Formula.parse "(6-2)*3" = .ok f ∧
      Plan.Lists (f.plan .instant (Id.ofNat 0) stamps) 0 f ∧
      Formula.ofTasks? (f.plan .instant (Id.ofNat 0) stamps) = some f ∧
      ((Coordinator.initial .instant none).submit "(6-2)*3" (Evaluation.stamp 0) stamps
        (Evaluation.clock 0)).1 =
          .ok (Id.ofNat 0) := by
  intro stamps f
  have hn : ((List.range f.size).map fun k => (stamps k).uuid).Nodup := by decide
  have hp : Formula.parse "(6-2)*3" = .ok f := rfl
  obtain ⟨-, hlists, -, -, -, hread, -, hsubmit⟩ := postOrder_plan f .instant (Id.ofNat 0) stamps hn
  have hfresh : (Call.submit "(6-2)*3" (Evaluation.stamp 0) stamps (Evaluation.clock 0)).Fresh
      ((Coordinator.initial .instant none).run []).store :=
        Coordinator.fresh_run .instant none (by decide)
  exact ⟨hn, hp, hlists, hread, hsubmit (Coordinator.initial .instant none) _ (Evaluation.stamp 0) _
    ⟨.instant, none, [], .nil, rfl⟩ hp hfresh⟩

end Reckoner
