import Reckoner.Task.Graph
import Reckoner.Proofs.Task.Standing
import Mathlib.Data.List.Nodup

/-!
# Graphs of listed trees

A list of nodes in which every dependency stands before its consumer, and every node but the last
is consumed once, is taken for a graph; that graph is a tree whose root is the last node.
-/

namespace Reckoner

def Task.node (t : Task) : TaskGraph.Node := ⟨t.id, t.dependencies⟩

theorem Task.map_node_eq {ts us : List Task} (h : ts.map Task.blueprint = us.map Task.blueprint) :
    ts.map Task.node = us.map Task.node := by
  have := congrArg (List.map Task.node) h
  rwa [List.map_map, List.map_map] at this

namespace TaskGraph

/-! ## The tests of a graph -/

theorem firstRepeated?_eq_none : ∀ {nodes : List Node} {seen : Std.TreeSet TaskId},
    firstRepeated? seen nodes = none ↔ (nodes.map Node.id).Nodup ∧ ∀ n ∈ nodes, n.id ∉ seen
  | [], seen => by simp [firstRepeated?]
  | n :: rest, seen => by
    simp only [firstRepeated?, Std.TreeSet.contains_iff_mem]
    split
    · rename_i h
      simp only [reduceCtorEq, List.mem_cons, forall_eq_or_imp, false_iff]
      exact fun hn => hn.2.1 h
    · rename_i h
      rw [firstRepeated?_eq_none]
      simp only [List.map_cons, List.nodup_cons, List.mem_map, not_exists, not_and, List.mem_cons,
        forall_eq_or_imp, Std.TreeSet.mem_insert, Std.compare_eq_iff_eq, not_or]
      constructor
      · rintro ⟨hn, hr⟩
        exact ⟨⟨fun m hm e => (hr m hm).1 e.symm, hn⟩, h, fun m hm => (hr m hm).2⟩
      · rintro ⟨⟨hi, hn⟩, -, hr⟩
        exact ⟨hn, fun m hm => ⟨fun e => hi m hm e.symm, hr m hm⟩⟩

theorem firstUnknown?_eq_none {nodes : List Node} :
    firstUnknown? nodes = none ↔ ∀ n ∈ nodes, ∀ d ∈ n.dependencies, d ∈ nodes.map Node.id := by
  simp [firstUnknown?, List.findSome?_eq_none_iff, List.find?_eq_none]

def Ordered : (seen : List TaskId) → List Node → Prop
  | _, [] => True
  | seen, n :: rest => (∀ d ∈ n.dependencies, d ∈ seen) ∧ Ordered (n.id :: seen) rest

theorem Ordered.mono : ∀ {nodes : List Node} {seen seen' : List TaskId}, Ordered seen nodes →
    (∀ i ∈ seen, i ∈ seen') → Ordered seen' nodes
  | [], _, _, _, _ => trivial
  | n :: _, _, _, h, hs => by
    refine ⟨fun d hd => hs d (h.1 d hd), h.2.mono fun i hi => ?_⟩
    rcases List.mem_cons.1 hi with rfl | hi
    · exact List.mem_cons_self ..
    · exact List.mem_cons_of_mem _ (hs i hi)

theorem Ordered.append : ∀ {xs ys : List Node} {seen : List TaskId}, Ordered seen xs →
    Ordered (xs.map Node.id ++ seen) ys → Ordered seen (xs ++ ys)
  | [], _, _, _, h => h
  | _ :: _, _, _, hx, hy =>
    ⟨hx.1, hx.2.append (hy.mono fun i hi => by simpa [or_left_comm, or_assoc] using hi)⟩

theorem Ordered.mem_take {nodes : List Node} : ∀ {seen : List TaskId}, Ordered seen nodes →
    ∀ {k n d}, nodes[k]? = some n → d ∈ n.dependencies → d ∈ seen ∨
      d ∈ (nodes.take k).map Node.id := by
  induction nodes with
  | nil =>
    intro seen _ k n d hn
    cases hn
  | cons m nodes ih =>
    intro seen ho k n d hn hd
    cases k with
    | zero =>
      cases hn
      exact .inl (ho.1 d hd)
    | succ k =>
      rw [List.getElem?_cons_succ] at hn
      rw [List.take_succ_cons, List.map_cons, List.mem_cons]
      rcases ih ho.2 hn hd with hm | hm
      · exact (List.mem_cons.1 hm).elim (fun e => .inr (.inl e)) .inl
      · exact .inr (.inr hm)

/-- One sweep over an ordered list places every node. -/
theorem foldl_step_of_ordered : ∀ {nodes : List Node} {seen : List TaskId}
    {placed : Std.TreeSet TaskId}
    (order : List TaskId), Ordered seen nodes → (∀ i ∈ seen, i ∈ placed) →
      (nodes.foldl Sweep.step ⟨placed, order, []⟩).waiting = [] ∧
        (nodes.foldl Sweep.step ⟨placed, order, []⟩).order = (nodes.map Node.id).reverse ++ order
  | [], _, _, _, _, _ => by simp
  | n :: rest, seen, placed, order, h, hs => by
    have hn : n.dependencies.all placed.contains = true := by
      rw [List.all_eq_true]
      intro d hd
      exact Std.TreeSet.mem_iff_contains.1 (hs d (h.1 d hd))
    rw [List.foldl_cons, Sweep.step, if_pos hn]
    have hs' : ∀ i ∈ n.id :: seen, i ∈ placed.insert n.id := by
      intro i hi
      rw [Std.TreeSet.mem_insert, Std.compare_eq_iff_eq]
      exact (List.mem_cons.1 hi).imp Eq.symm (hs i)
    obtain ⟨hw, ho⟩ := foldl_step_of_ordered (n.id :: order) h.2 hs'
    exact ⟨hw, by rw [ho]; simp⟩

theorem place?_of_waiting_nil (k : Nat) {s : Sweep} (h : s.waiting = []) :
    place? k s = some s.order.reverse := by
  obtain ⟨placed, order, waiting⟩ := s
  subst h
  cases k <;> rfl

theorem order?_of_ordered {nodes : List Node} (h : Ordered [] nodes) :
    order? nodes = some (nodes.map Node.id) := by
  cases nodes with
  | nil => rfl
  | cons n rest =>
    have hw := foldl_step_of_ordered [] h (by simp : ∀ i ∈ [], i ∈ (∅ : Std.TreeSet TaskId))
    have unfolded : order? (n :: rest) =
        place? rest.length ((n :: rest).foldl Sweep.step ⟨∅, [], []⟩) := by
      rw [order?, List.length_cons, place?]
      · simp
      · simp
    rw [unfolded, place?_of_waiting_nil _ hw.1, hw.2]
    simp

theorem sinks_eq (g : TaskGraph) : g.sinks = g.taskIds.filter (· ∉ g.dependencies) := by
  simp only [sinks]
  congr 1
  funext i
  rw [Std.TreeSet.contains_ofList]
  simp

/-! ## Trees -/

/-- The nodes are in order and every one of them but the last, the root, is consumed once. -/
structure Tree (before : List Node) (root : Node) : Prop where
  nodup : ((before ++ [root]).map Node.id).Nodup
  ordered : Ordered [] (before ++ [root])
  consumed : ((before ++ [root]).flatMap Node.dependencies).Perm (before.map Node.id)

namespace Tree

variable {before : List Node} {root : Node} (h : Tree before root)
include h

theorem ofTasks {tasks : List Task} (ht : tasks.map Task.node = before ++ [root]) :
    TaskGraph.ofTasks tasks = .ok ⟨before ++ [root]⟩ := by
  have hr : firstRepeated? ∅ (before ++ [root]) = none :=
    firstRepeated?_eq_none.2 ⟨h.nodup, by simp⟩
  have hu : firstUnknown? (before ++ [root]) = none := by
    refine firstUnknown?_eq_none.2 fun n hn d hd => ?_
    have : d ∈ before.map Node.id := h.consumed.subset (List.mem_flatMap.2 ⟨n, hn, hd⟩)
    rw [List.map_append]
    exact List.mem_append_left _ this
  have ht : (tasks.map fun t => (⟨t.id, t.dependencies⟩ : Node)) = before ++ [root] := ht
  simp only [TaskGraph.ofTasks, ht, hr, hu, order?_of_ordered h.ordered, Option.isSome_some,
    if_true]

theorem root_notMem : root.id ∉ before.map Node.id := by
  have := h.nodup
  rw [List.map_append, List.nodup_append] at this
  exact fun hm => this.2.2 _ hm _ (by simp) rfl

theorem root_eq : TaskGraph.root ⟨before ++ [root]⟩ = some root.id := by
  have hd : ∀ i, i ∈ (⟨before ++ [root]⟩ : TaskGraph).dependencies ↔ i ∈ before.map Node.id :=
    fun i => h.consumed.mem_iff
  have hs : (⟨before ++ [root]⟩ : TaskGraph).sinks = [root.id] := by
    rw [sinks_eq, taskIds, List.map_append, List.filter_append]
    have hb : (before.map Node.id).filter (· ∉ (⟨before ++ [root]⟩ : TaskGraph).dependencies) =
        [] := by
      rw [List.filter_eq_nil_iff]
      intro i hi
      simp [hd, hi]
    have hr : root.id ∉ (⟨before ++ [root]⟩ : TaskGraph).dependencies := by
      rw [hd]; exact h.root_notMem
    rw [hb]
    simp [hr]
  rw [TaskGraph.root, hs]

theorem isTree : TaskGraph.isTree ⟨before ++ [root]⟩ = true := by
  simp only [TaskGraph.isTree, h.root_eq, List.all_eq_true, beq_iff_eq]
  intro i hi
  rw [show (⟨before ++ [root]⟩ : TaskGraph).dependencies.count i = (before.map Node.id).count i from
    h.consumed.count_eq i]
  have hn : (before.map Node.id).Nodup := by
    have := h.nodup
    rw [List.map_append, List.nodup_append] at this
    exact this.1
  split
  · rename_i e
    subst e
    exact List.count_eq_zero.2 h.root_notMem
  · rename_i e
    refine List.count_eq_one_of_mem hn ?_
    rw [taskIds, List.map_append, List.mem_append] at hi
    exact hi.resolve_right (by simpa using e)

end Tree

end TaskGraph

end Reckoner
