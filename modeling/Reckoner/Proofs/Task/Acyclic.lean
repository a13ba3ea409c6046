import Reckoner.Proofs.Task.Graph
import Mathlib.Data.List.Nodup
import Mathlib.Logic.Relation
import Mathlib.Order.WellFoundedSet

/-!
# Graphs without cycles

Tasks make a graph if and only if no task waits for itself, directly or through others. Each sweep
places every node that is ready when the sweep starts. As long as nodes wait and none waits for
itself, one of them is ready: a waiting node that waits for no other.
-/

namespace Reckoner.TaskGraph

def Awaits (nodes : List Node) (i d : TaskId) : Prop := ∃ n ∈ nodes, n.id = i ∧ d ∈ n.dependencies

/--
The nodes make a graph: each stands once, for no dependency outside, and waits for itself in no way.
-/
structure Proper (nodes : List Node) : Prop where
  nodup : (nodes.map Node.id).Nodup
  closed : ∀ n ∈ nodes, ∀ d ∈ n.dependencies, d ∈ nodes.map Node.id
  acyclic : ∀ i, ¬ Relation.TransGen (Awaits nodes) i i

/-! ## Sweeps -/

structure Sweep.Splits (s : Sweep) (nodes placed : List Node) : Prop where
  perm : (placed ++ s.waiting).Perm nodes
  ordered : Ordered [] placed
  order : s.order = (placed.map Node.id).reverse
  mem_placed : ∀ {i}, i ∈ s.placed ↔ i ∈ placed.map Node.id

namespace Sweep.Splits

variable {s : Sweep} {nodes placed : List Node} (h : s.Splits nodes placed)
include h

theorem step (n : Node) : ∃ more, (s.step n).Splits (n :: nodes) (placed ++ more) ∧
    ((∀ d ∈ n.dependencies, d ∈ placed.map Node.id) → n ∈ more) := by
  have hready : n.dependencies.all s.placed.contains = true ↔
      ∀ d ∈ n.dependencies, d ∈ placed.map Node.id := by
    simp only [List.all_eq_true, ← Std.TreeSet.mem_iff_contains, h.mem_placed]
  by_cases hn : ∀ d ∈ n.dependencies, d ∈ placed.map Node.id
  · rw [Sweep.step, if_pos (hready.2 hn)]
    refine ⟨[n], ⟨?_, ?_, ?_, ?_⟩, fun _ => List.mem_singleton_self n⟩
    · rw [List.append_assoc]
      exact List.perm_middle.trans (h.perm.cons n)
    · exact h.ordered.append ⟨by simpa using hn, trivial⟩
    · simp [h.order]
    · intro i
      rw [Std.TreeSet.mem_insert, Std.compare_eq_iff_eq, h.mem_placed, List.map_append,
        List.mem_append]
      simp [or_comm, eq_comm]
  · rw [Sweep.step, if_neg (mt hready.1 hn)]
    refine ⟨[], ⟨?_, ?_, ?_, ?_⟩, fun hd => absurd hd hn⟩
    all_goals rw [List.append_nil]
    · exact List.perm_middle.trans (h.perm.cons n)
    · exact h.ordered
    · exact h.order
    · exact h.mem_placed

end Sweep.Splits

/-- A sweep places every node that is ready when it starts. -/
theorem Sweep.Splits.foldl : ∀ (rest : List Node) {s : Sweep}
    {nodes placed : List Node}, s.Splits nodes placed →
    ∃ more, (rest.foldl Sweep.step s).Splits (rest.reverse ++ nodes) (placed ++ more) ∧
      ∀ n ∈ rest, (∀ d ∈ n.dependencies, d ∈ placed.map Node.id) → n ∈ more
  | [], _, _, _, h => ⟨[], by simpa using h, by simp⟩
  | n :: rest, s, nodes, placed, h => by
    obtain ⟨first, hfirst, hn⟩ := h.step n
    obtain ⟨more, hmore, hrest⟩ := foldl rest hfirst
    refine ⟨first ++ more, by simpa using hmore, fun m hm hd => ?_⟩
    rcases List.mem_cons.1 hm with rfl | hm
    · exact List.mem_append_left _ (hn hd)
    · refine List.mem_append_right _ (hrest m hm fun d hdm => ?_)
      rw [List.map_append]
      exact List.mem_append_left _ (hd d hdm)

theorem Sweep.Splits.sweep {s : Sweep} {nodes placed : List Node} (h : s.Splits nodes placed) :
    ∃ more, (s.waiting.reverse.foldl Sweep.step { s with waiting := [] }).Splits nodes
      (placed ++ more) ∧
      ∀ n ∈ s.waiting, (∀ d ∈ n.dependencies, d ∈ placed.map Node.id) → n ∈ more := by
  have hstart : ({ s with waiting := [] } : Sweep).Splits placed placed :=
    ⟨by simp, h.ordered, h.order, h.mem_placed⟩
  obtain ⟨more, hmore, hready⟩ := Splits.foldl s.waiting.reverse hstart
  refine ⟨more, ⟨?_, hmore.ordered, hmore.order, hmore.mem_placed⟩, by simpa using hready⟩
  rw [List.reverse_reverse] at hmore
  exact hmore.perm.trans (List.perm_append_comm.trans h.perm)

theorem place?_zero {s : Sweep} (h : s.waiting ≠ []) : place? 0 s = none := by
  obtain ⟨placed, order, waiting⟩ := s
  cases waiting with
  | nil => exact absurd rfl h
  | cons n rest => rfl

theorem place?_succ {s : Sweep} (h : s.waiting ≠ []) (k : Nat) :
    place? (k + 1) s = place? k (s.waiting.reverse.foldl Sweep.step { s with waiting := [] }) := by
  obtain ⟨placed, order, waiting⟩ := s
  cases waiting with
  | nil => exact absurd rfl h
  | cons n rest => rfl

/-- The order of a placement, if there is one. -/
theorem of_place?_eq_some {nodes : List Node} {order : List TaskId} :
    ∀ {k : Nat} {s : Sweep} {placed : List Node},
    s.Splits nodes placed → place? k s = some order →
      ∃ all : List Node, all.Perm nodes ∧ Ordered [] all ∧ order = all.map Node.id := by
  intro k s placed h ho
  by_cases hw : s.waiting = []
  · rw [place?_of_waiting_nil k hw] at ho
    cases ho
    have hperm := h.perm
    rw [hw, List.append_nil] at hperm
    exact ⟨placed, hperm, h.ordered, by rw [h.order, List.reverse_reverse]⟩
  · cases k with
    | zero =>
      rw [place?_zero hw] at ho
      cases ho
    | succ k =>
      rw [place?_succ hw] at ho
      obtain ⟨more, hmore, -⟩ := h.sweep
      exact of_place?_eq_some hmore ho

/-- A waiting node that waits for no other waiting node has all its dependencies. -/
theorem Proper.exists_ready {nodes : List Node} (h : Proper nodes) {s : Sweep} {placed : List Node}
    (hs : s.Splits nodes placed) (hw : s.waiting ≠ []) :
    ∃ n ∈ s.waiting, ∀ d ∈ n.dependencies, d ∈ placed.map Node.id := by
  let before (d i : TaskId) : Prop := Relation.TransGen (Awaits nodes) i d
  have : IsStrictOrder TaskId before :=
    { irrefl := h.acyclic
      trans := fun _ _ _ hab hbc => hbc.trans hab }
  have hfinite : {i | i ∈ s.waiting.map Node.id}.Finite := List.finite_toSet _
  have hwf : {i | i ∈ s.waiting.map Node.id}.WellFoundedOn before := hfinite.wellFoundedOn
  obtain ⟨m, hm⟩ := List.exists_mem_of_ne_nil _ hw
  obtain ⟨⟨i, hi⟩, -, hmin⟩ := hwf.has_min Set.univ ⟨⟨m.id, List.mem_map_of_mem hm⟩, trivial⟩
  obtain ⟨n, hn, rfl⟩ := List.mem_map.1 hi
  refine ⟨n, hn, fun d hd => ?_⟩
  have hnodes : n ∈ nodes := hs.perm.subset (List.mem_append_right _ hn)
  have hmem := (hs.perm.map Node.id).symm.subset (h.closed n hnodes d hd)
  rw [List.map_append, List.mem_append] at hmem
  refine hmem.resolve_right fun hwait => ?_
  exact hmin ⟨d, hwait⟩ trivial (Relation.TransGen.single ⟨n, hnodes, rfl, hd⟩)

theorem place?_isSome {nodes : List Node} (h : Proper nodes) :
    ∀ {k : Nat} {s : Sweep} {placed : List Node},
    s.Splits nodes placed → s.waiting.length ≤ k → (place? k s).isSome = true := by
  intro k s placed hs hk
  by_cases hw : s.waiting = []
  · rw [place?_of_waiting_nil k hw]
    rfl
  · cases k with
    | zero => exact absurd (List.length_eq_zero_iff.1 (Nat.le_zero.1 hk)) hw
    | succ k =>
      rw [place?_succ hw]
      obtain ⟨more, hmore, hready⟩ := hs.sweep
      obtain ⟨n, hn, hd⟩ := h.exists_ready hs hw
      refine place?_isSome h hmore ?_
      -- the node that is ready leaves the waiting ones
      have hpos := List.length_pos_of_mem (hready n hn hd)
      have hlength := hs.perm.length_eq.trans hmore.perm.length_eq.symm
      simp only [List.length_append] at hlength
      omega

/-! ## Orders -/

theorem splits_start (nodes : List Node) : Sweep.Splits ⟨∅, [], nodes.reverse⟩ nodes [] where
  perm := List.reverse_perm nodes
  ordered := trivial
  order := rfl
  mem_placed {i} := by simp

/-- In an order every dependency stands before its consumer. -/
theorem Ordered.idxOf_lt {nodes : List Node} (h : Ordered [] nodes) (hn : (nodes.map Node.id).Nodup)
    {n : Node} (hmem : n ∈ nodes) {d : TaskId} (hd : d ∈ n.dependencies) :
    (nodes.map Node.id).idxOf d < (nodes.map Node.id).idxOf n.id := by
  obtain ⟨k, hk, rfl⟩ := List.getElem_of_mem hmem
  have hbefore : d ∈ (nodes.take k).map Node.id :=
    (h.mem_take (List.getElem?_eq_getElem hk) hd).resolve_left List.not_mem_nil
  have hsplit : nodes.map Node.id = (nodes.take k).map Node.id ++ (nodes.drop k).map Node.id := by
    rw [← List.map_append, List.take_append_drop]
  have hself : (nodes.map Node.id).idxOf nodes[k].id = k := by
    have hk' := hn.idxOf_getElem k (by simpa using hk)
    rwa [List.getElem_map] at hk'
  calc (nodes.map Node.id).idxOf d
      = ((nodes.take k).map Node.id).idxOf d := by rw [hsplit, List.idxOf_append_of_mem hbefore]
    _ < ((nodes.take k).map Node.id).length := List.idxOf_lt_length_of_mem hbefore
    _ ≤ k := by simp
    _ = (nodes.map Node.id).idxOf nodes[k].id := hself.symm

theorem Proper.order?_isSome {nodes : List Node} (h : Proper nodes) :
    (order? nodes).isSome = true :=
  place?_isSome h (splits_start nodes) (by simp)

theorem of_order?_eq_some {nodes : List Node} (hn : (nodes.map Node.id).Nodup) {order : List TaskId}
    (h : order? nodes = some order) : order.Perm (nodes.map Node.id) ∧
      ∀ n ∈ nodes, ∀ d ∈ n.dependencies, order.idxOf d < order.idxOf n.id := by
  obtain ⟨all, hperm, hordered, rfl⟩ := of_place?_eq_some (splits_start nodes) h
  have hids := hperm.map Node.id
  exact ⟨hids, fun n hmem d hd => hordered.idxOf_lt (hids.nodup_iff.2 hn) (hperm.mem_iff.2 hmem) hd⟩

theorem acyclic_of_order {nodes : List Node} {rank : TaskId → Nat}
    (h : ∀ n ∈ nodes, ∀ d ∈ n.dependencies, rank d < rank n.id) (i : TaskId) :
    ¬ Relation.TransGen (Awaits nodes) i i := by
  have hone : ∀ i d, Awaits nodes i d → rank d < rank i := by
    rintro i d ⟨n, hn, rfl, hd⟩
    exact h n hn d hd
  have hall : ∀ i d, Relation.TransGen (Awaits nodes) i d → rank d < rank i := by
    intro i d hid
    induction hid with
    | single hd => exact hone _ _ hd
    | tail _ hd ih => exact (hone _ _ hd).trans ih
  exact fun hi => (hall i i hi).false

/-- The last node of an order has no consumer. -/
theorem sinks_ne_nil {nodes : List Node} {order : List TaskId} (hp : order.Perm (nodes.map Node.id))
    (hn : (nodes.map Node.id).Nodup)
    (ho : ∀ n ∈ nodes, ∀ d ∈ n.dependencies, order.idxOf d < order.idxOf n.id)
    (hne : nodes ≠ []) : sinks ⟨nodes⟩ ≠ [] := by
  have horder : order ≠ [] := by
    rintro rfl
    exact hne (List.map_eq_nil_iff.1 hp.symm.eq_nil)
  obtain ⟨front, last, rfl⟩ := (List.eq_nil_or_concat' order).resolve_left horder
  have hfront : last ∉ front := fun hm => (List.nodup_append.1 (hp.nodup_iff.2 hn)).2.2 _ hm _
    (by simp) rfl
  have hlast : (front ++ [last]).idxOf last = front.length := by
    rw [List.idxOf_append_of_notMem hfront, List.idxOf_cons_self, Nat.add_zero]
  have hunused : last ∉ (⟨nodes⟩ : TaskGraph).dependencies := by
    intro hd
    obtain ⟨n, hmem, hd⟩ := List.mem_flatMap.1 hd
    have hlt := ho n hmem last hd
    have hle := List.idxOf_lt_length_of_mem (hp.mem_iff.2 (List.mem_map_of_mem hmem))
    rw [List.length_append, List.length_singleton] at hle
    omega
  refine List.ne_nil_of_mem (a := last) ?_
  rw [sinks_eq, List.mem_filter]
  exact ⟨hp.subset (by simp), by simpa using hunused⟩

theorem ofTasks_eq_ok {tasks : List Task} {g : TaskGraph} :
    ofTasks tasks = .ok g ↔ g = ⟨tasks.map Task.node⟩ ∧ Proper (tasks.map Task.node) := by
  have hnodes : (tasks.map fun t => (⟨t.id, t.dependencies⟩ : Node)) = tasks.map Task.node := rfl
  simp only [ofTasks, hnodes]
  generalize tasks.map Task.node = nodes
  split
  · rename_i i hr
    refine iff_of_false (by simp) fun h => ?_
    rw [firstRepeated?_eq_none.2 ⟨h.2.nodup, by simp⟩] at hr
    cases hr
  · rename_i hr
    have hn := (firstRepeated?_eq_none.1 hr).1
    split
    · rename_i i d hu
      refine iff_of_false (by simp) fun h => ?_
      rw [firstUnknown?_eq_none.2 h.2.closed] at hu
      cases hu
    · rename_i hu
      have hc := firstUnknown?_eq_none.1 hu
      split
      · rename_i ho
        obtain ⟨order, ho⟩ := Option.isSome_iff_exists.1 ho
        have ha := acyclic_of_order (of_order?_eq_some hn ho).2
        exact ⟨fun h => (by cases h; exact ⟨rfl, hn, hc, ha⟩), fun h => by rw [h.1]⟩
      · rename_i ho
        exact iff_of_false (by simp) fun h => ho h.2.order?_isSome

/--
Tasks are taken for a graph if and only if no two have one identifier, every dependency is one of
them, and none waits for itself, directly or through others. Such a graph has an order, in which
each task stands once and after its dependencies. Its sinks are the tasks that no task depends on,
and unless there are no tasks there is one.
-/
theorem ofTasks_exact (tasks : List Task) :
    let ids := tasks.map Task.id
    let awaits (i d : TaskId) : Prop := ∃ t ∈ tasks, t.id = i ∧ d ∈ t.dependencies
    ((∃ g, ofTasks tasks = .ok g) ↔ ids.Nodup ∧ (∀ t ∈ tasks, ∀ d ∈ t.dependencies, d ∈ ids) ∧
      ∀ i, ¬ Relation.TransGen awaits i i) ∧
    ∀ g, ofTasks tasks = .ok g →
      (∃ order, g.topologicalOrder = .ok order ∧ order.Nodup ∧ (∀ i, i ∈ order ↔ i ∈ ids) ∧
        ∀ t ∈ tasks, ∀ d ∈ t.dependencies, order.idxOf d < order.idxOf t.id) ∧
      g.sinks.Nodup ∧ (∀ i, i ∈ g.sinks ↔ i ∈ ids ∧ ∀ t ∈ tasks, i ∉ t.dependencies) ∧
      (tasks ≠ [] → g.sinks ≠ []) := by
  intro ids awaits
  have hids : (tasks.map Task.node).map Node.id = ids := by rw [List.map_map]; rfl
  have hawaits : Awaits (tasks.map Task.node) = awaits := by
    funext i d
    simp [Awaits, awaits, Task.node]
  refine ⟨?_, fun g hg => ?_⟩
  · simp only [ofTasks_eq_ok, exists_eq_left]
    constructor
    · intro hp
      exact ⟨hids ▸ hp.nodup, fun t ht d hd =>
        hids ▸ hp.closed t.node (List.mem_map_of_mem ht) d hd,
        hawaits ▸ hp.acyclic⟩
    · rintro ⟨hn, hc, ha⟩
      refine ⟨hids ▸ hn, fun n hmem d hd => ?_, hawaits ▸ ha⟩
      obtain ⟨t, ht, rfl⟩ := List.mem_map.1 hmem
      exact hids ▸ hc t ht d hd
  · obtain ⟨rfl, hp⟩ := ofTasks_eq_ok.1 hg
    obtain ⟨order, ho⟩ := Option.isSome_iff_exists.1 hp.order?_isSome
    obtain ⟨hperm, hbefore⟩ := of_order?_eq_some hp.nodup ho
    refine ⟨⟨order, by simp only [topologicalOrder, ho], hperm.nodup_iff.2 hp.nodup, fun i =>
      ?_, fun t ht d hd => ?_⟩,
      ?_, fun i => ?_, fun hne => sinks_ne_nil hperm hp.nodup hbefore (by simpa using hne)⟩
    · rw [hperm.mem_iff, hids]
    · exact hbefore t.node (List.mem_map_of_mem ht) d hd
    · rw [sinks_eq]
      exact hp.nodup.filter _
    · rw [sinks_eq, List.mem_filter, taskIds, hids]
      simp [dependencies, Task.node]

/--
A square that stands before its number and lists it twice is taken for a graph; one over itself is
not.
-/
theorem ofTasks_exact_of_square :
    let number := Task.literal ⟨⟨0⟩⟩ 3.0 ⟨⟨1⟩, .ofMillis 0⟩
    let square := Task.composite ⟨⟨0⟩⟩ .multiplication number number 0 ⟨⟨2⟩, .ofMillis 0⟩
    (∃ g order, ofTasks [square, number] = .ok g ∧ g.topologicalOrder = .ok order ∧
      order.idxOf number.id < order.idxOf square.id ∧ g.sinks ≠ []) ∧
    ¬ ∃ g, ofTasks [{ square with dependencies := [square.id] }] = .ok g := by
  intro number square
  have hgraph : ofTasks [square, number] = .ok ⟨[square.node, number.node]⟩ := by rfl
  obtain ⟨⟨order, ho, -, -, hbefore⟩, -, -, hsinks⟩ := (ofTasks_exact [square, number]).2 _ hgraph
  refine ⟨⟨_, order, hgraph, ho, hbefore square (by simp) number.id (by decide), hsinks (by simp)⟩,
    fun hloop => ?_⟩
  obtain ⟨-, -, hacyclic⟩ := (ofTasks_exact [{ square with dependencies := [square.id] }]).1.1 hloop
  exact hacyclic square.id (.single ⟨_, List.mem_singleton_self _, rfl, by simp⟩)

end Reckoner.TaskGraph
