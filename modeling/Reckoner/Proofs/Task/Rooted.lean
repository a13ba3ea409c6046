import Reckoner.Proofs.Task.Acyclic
import Mathlib.Data.List.Nodup
import Mathlib.Logic.ExistsUnique

/-!
# Rooted trees

The test for a tree counts: one sink, and one consumer for every other task. In a graph without
cycles this says that exactly one path leads from every task to the sink. A path is a list of edges,
so a task that lists a dependency twice puts two paths between them.
-/

namespace Reckoner.TaskGraph

/-- An edge, by the consumer it leads to and its place among the dependencies there. -/
structure Edge where
  consumer : TaskId
  place : Nat
deriving DecidableEq, Repr

def Leaves (nodes : List Node) (i : TaskId) (e : Edge) : Prop :=
  ∃ n ∈ nodes, n.id = e.consumer ∧ n.dependencies[e.place]? = some i

inductive Path (nodes : List Node) : TaskId → List Edge → TaskId → Prop
  | nil (i : TaskId) : Path nodes i [] i
  | cons {i r : TaskId} {e : Edge} {path : List Edge} (first : Leaves nodes i e)
      (rest : Path nodes e.consumer path r) : Path nodes i (e :: path) r

/-! ## Edges -/

def edgesFrom (nodes : List Node) (i : TaskId) : List Edge :=
  nodes.flatMap fun n => (n.dependencies.zipIdx.filter (·.1 == i)).map fun p => ⟨n.id, p.2⟩

section
variable {nodes : List Node} {i : TaskId}

theorem mem_edgesFrom {e : Edge} : e ∈ edgesFrom nodes i ↔ Leaves nodes i e := by
  simp only [edgesFrom, List.mem_flatMap, List.mem_map, List.mem_filter,
    List.mem_zipIdx_iff_getElem?, beq_iff_eq,
    Leaves]
  constructor
  · rintro ⟨n, hn, ⟨d, k⟩, ⟨hk, rfl⟩, rfl⟩
    exact ⟨n, hn, rfl, hk⟩
  · rintro ⟨n, hn, hid, hk⟩
    exact ⟨n, hn, (i, e.place), ⟨hk, rfl⟩, by rw [hid]⟩

theorem length_edgesFrom (nodes : List Node) (i : TaskId) :
    (edgesFrom nodes i).length = (nodes.flatMap Node.dependencies).count i := by
  rw [edgesFrom, List.length_flatMap, List.count_flatMap]
  congr 1
  refine List.map_congr_left fun n _ => ?_
  calc ((n.dependencies.zipIdx.filter (·.1 == i)).map fun p => (⟨n.id, p.2⟩ : Edge)).length
      = n.dependencies.zipIdx.countP ((· == i) ∘ Prod.fst) := by
        rw [List.length_map, List.countP_eq_length_filter]
        rfl
    _ = n.dependencies.count i := by
        rw [← List.countP_map, List.zipIdx_map_fst, List.count]

theorem nodup_edgesFrom (hn : (nodes.map Node.id).Nodup) (i : TaskId) :
    (edgesFrom nodes i).Nodup := by
  refine List.nodup_flatMap.2 ⟨fun n _ => ?_, ?_⟩
  · have hplaces : (n.dependencies.zipIdx.map Prod.snd).Nodup := by
      rw [List.zipIdx_map_snd]
      exact List.nodup_range'
    refine List.Nodup.of_map Edge.place ?_
    rw [List.map_map]
    exact hplaces.sublist (List.filter_sublist.map Prod.snd)
  · refine (List.pairwise_map.1 hn).imp fun {n m} hne e hen hem => ?_
    obtain ⟨_, -, rfl⟩ := List.mem_map.1 hen
    obtain ⟨_, -, he⟩ := List.mem_map.1 hem
    exact hne (congrArg Edge.consumer he).symm

theorem count_eq_zero_iff :
    (nodes.flatMap Node.dependencies).count i = 0 ↔ ∀ e, ¬ Leaves nodes i e := by
  rw [← length_edgesFrom, List.length_eq_zero_iff, List.eq_nil_iff_forall_not_mem]
  simp only [mem_edgesFrom]

theorem count_eq_one_iff (hn : (nodes.map Node.id).Nodup) :
    (nodes.flatMap Node.dependencies).count i = 1 ↔ ∃! e, Leaves nodes i e := by
  simp only [← length_edgesFrom, List.length_eq_one_iff, ← mem_edgesFrom]
  constructor
  · rintro ⟨e, he⟩
    exact ⟨e, by simp [he], fun e' he' => by simpa [he] using he'⟩
  · rintro ⟨e, he, hunique⟩
    refine ⟨e, List.perm_singleton.1 ?_⟩
    refine (List.perm_ext_iff_of_nodup (nodup_edgesFrom hn i) (List.nodup_singleton e)).2 fun e' =>
      ?_
    rw [List.mem_singleton]
    exact ⟨hunique e', fun h => h ▸ he⟩

end

/-! ## Counts and paths -/

def Gathers (nodes : List Node) (r : TaskId) : Prop :=
  r ∈ nodes.map Node.id ∧ ∀ i ∈ nodes.map Node.id,
    (nodes.flatMap Node.dependencies).count i = if i = r then 0 else 1

/-- From every task exactly one path leads to this one. -/
def Rooted (nodes : List Node) (r : TaskId) : Prop :=
  r ∈ nodes.map Node.id ∧ ∀ i ∈ nodes.map Node.id, ∃! path, Path nodes i path r

section
variable {nodes : List Node} {r : TaskId}

theorem root_eq_some (hn : (nodes.map Node.id).Nodup) : TaskGraph.root ⟨nodes⟩ = some r ↔
    ∀ i, (i ∈ nodes.map Node.id ∧ i ∉ nodes.flatMap Node.dependencies) ↔ i = r := by
  have hroot : TaskGraph.root ⟨nodes⟩ = some r ↔ sinks ⟨nodes⟩ = [r] := by
    unfold TaskGraph.root
    split
    · rename_i hs
      rw [hs]
      simp
    · rename_i hs
      exact iff_of_false (by simp) (hs r)
  have hnodup : (sinks ⟨nodes⟩).Nodup := by
    rw [sinks_eq]
    exact hn.filter _
  rw [hroot, ← List.perm_singleton, List.perm_ext_iff_of_nodup hnodup (List.nodup_singleton r)]
  refine forall_congr' fun i => ?_
  rw [sinks_eq, List.mem_filter, List.mem_singleton, decide_eq_true_iff]
  rfl

theorem Gathers.root (h : Gathers nodes r) (hn : (nodes.map Node.id).Nodup) :
    TaskGraph.root ⟨nodes⟩ = some r := by
  refine (root_eq_some hn).2 fun i => ⟨fun ⟨hi, hd⟩ => ?_, fun e => ?_⟩
  · by_contra hne
    have hone := h.2 i hi
    rw [if_neg hne, List.count_eq_zero.2 hd] at hone
    cases hone
  · subst e
    have hzero := h.2 i h.1
    rw [if_pos rfl] at hzero
    exact ⟨h.1, List.count_eq_zero.1 hzero⟩

theorem isTree_iff (hn : (nodes.map Node.id).Nodup) : isTree ⟨nodes⟩ = true ↔
    ∃ r, Gathers nodes r := by
  unfold isTree
  constructor
  · intro h
    split at h
    · cases h
    · rename_i r hr
      simp only [List.all_eq_true, beq_iff_eq] at h
      exact ⟨r, (((root_eq_some hn).1 hr r).2 rfl).1, h⟩
  · rintro ⟨r, h⟩
    simp only [h.root hn, List.all_eq_true, beq_iff_eq]
    exact h.2

/-- Every dependency is a task but the root, once. -/
theorem Gathers.perm (h : Gathers nodes r) (hp : Proper nodes) :
    (nodes.flatMap Node.dependencies).Perm ((nodes.map Node.id).erase r) := by
  refine List.perm_iff_count.2 fun i => ?_
  by_cases hi : i ∈ nodes.map Node.id
  · rw [h.2 i hi, List.count_erase, List.count_eq_one_of_mem hp.nodup hi]
    by_cases e : i = r
    · simp [e]
    · simp [e, Ne.symm e]
  · have hd : i ∉ nodes.flatMap Node.dependencies := by
      intro hd
      obtain ⟨n, hmem, hd⟩ := List.mem_flatMap.1 hd
      exact hi (hp.closed n hmem i hd)
    rw [List.count_eq_zero.2 hd, List.count_eq_zero.2 fun hm => hi (List.mem_of_mem_erase hm)]

theorem Gathers.rooted (h : Gathers nodes r) (hp : Proper nodes) : Rooted nodes r := by
  obtain ⟨order, ho⟩ := Option.isSome_iff_exists.1 hp.order?_isSome
  obtain ⟨hperm, hbefore⟩ := of_order?_eq_some hp.nodup ho
  refine ⟨h.1, fun i hi => ?_⟩
  -- by induction on the tasks that the order still has after this one
  induction hk : order.length - order.idxOf i using Nat.strongRecOn generalizing i with
  | ind k ih =>
    have hcount := h.2 i hi
    by_cases e : i = r
    · subst e
      rw [if_pos rfl, count_eq_zero_iff] at hcount
      refine ⟨[], .nil i, fun path hpath => ?_⟩
      cases hpath with
      | nil => rfl
      | cons first rest => exact absurd first (hcount _)
    · rw [if_neg e, count_eq_one_iff hp.nodup] at hcount
      obtain ⟨edge, hedge, hunique⟩ := hcount
      obtain ⟨n, hn, hid, hplace⟩ := hedge
      have hconsumer : edge.consumer ∈ nodes.map Node.id := hid ▸ List.mem_map_of_mem hn
      have hlater : order.idxOf i < order.idxOf edge.consumer :=
        hid ▸ hbefore n hn i (List.mem_of_getElem? hplace)
      have hbound := List.idxOf_lt_length_of_mem (hperm.mem_iff.2 hconsumer)
      obtain ⟨path, hpath, honly⟩ := ih _ (by omega) edge.consumer hconsumer rfl
      refine ⟨edge :: path, .cons ⟨n, hn, hid, hplace⟩ hpath, fun path' hpath' => ?_⟩
      cases hpath' with
      | nil => exact absurd rfl e
      | cons first rest =>
        cases hunique _ first
        rw [honly _ rest]

theorem Rooted.gathers (h : Rooted nodes r) (hn : (nodes.map Node.id).Nodup) : Gathers nodes r := by
  -- an edge goes on to a task from which there is a path
  have hpath : ∀ {i e}, Leaves nodes i e → ∃ path, Path nodes i (e :: path) r := by
    intro i e he
    obtain ⟨n, hmem, hid, -⟩ := id he
    obtain ⟨path, hpath, -⟩ := h.2 e.consumer (hid ▸ List.mem_map_of_mem hmem)
    exact ⟨path, .cons he hpath⟩
  refine ⟨h.1, fun i hi => ?_⟩
  obtain ⟨path, hp, hunique⟩ := h.2 i hi
  split
  · rename_i e
    subst e
    refine count_eq_zero_iff.2 fun edge hedge => ?_
    obtain ⟨rest, hrest⟩ := hpath hedge
    cases (hunique _ hrest).trans (hunique [] (.nil i)).symm
  · rename_i e
    refine (count_eq_one_iff hn).2 ?_
    cases hp with
    | nil => exact absurd rfl e
    | cons first rest =>
      refine ⟨_, first, fun edge hedge => ?_⟩
      obtain ⟨rest', hrest'⟩ := hpath hedge
      exact (List.cons.inj (hunique _ hrest')).1

end

/--
A graph passes for a tree if and only if there is a task to which exactly one path leads from every
task. Then this task is the root, it alone is no dependency of any task, and there is one dependency
less than there are tasks.
-/
theorem isTree_exact {tasks : List Task} {g : TaskGraph} (h : ofTasks tasks = .ok g) :
    let nodes := tasks.map Task.node
    let ids := tasks.map Task.id
    (g.isTree = true ↔ ∃ r ∈ ids, ∀ i ∈ ids, ∃! path, Path nodes i path r) ∧
    ∀ r ∈ ids, (∀ i ∈ ids, ∃! path, Path nodes i path r) →
      g.root = some r ∧ (∀ i, (i ∈ ids ∧ ∀ t ∈ tasks, i ∉ t.dependencies) ↔ i = r) ∧
      g.dependencyCount + 1 = g.taskCount := by
  intro nodes ids
  obtain ⟨rfl, hp⟩ := ofTasks_eq_ok.1 h
  have hids : nodes.map Node.id = ids := List.map_map
  have hrooted : ∀ r, Rooted nodes r ↔ r ∈ ids ∧ ∀ i ∈ ids, ∃! path, Path nodes i path r := by
    intro r
    rw [Rooted, hids]
  have hgathers : ∀ r, Rooted nodes r ↔ Gathers nodes r :=
    fun r => ⟨fun hr => hr.gathers hp.nodup, fun hr => hr.rooted hp⟩
  refine ⟨?_, fun r hr hpaths => ?_⟩
  · simp only [← hrooted, hgathers]
    exact isTree_iff hp.nodup
  · have hg : Gathers nodes r := (hgathers r).1 ((hrooted r).2 ⟨hr, hpaths⟩)
    have hroot := hg.root hp.nodup
    refine ⟨hroot, fun i => ?_, ?_⟩
    · rw [← (root_eq_some hp.nodup).1 hroot i,
        show (tasks.map Task.node).map Node.id = ids from hids]
      simp [Task.node]
    · have hlength := (hg.perm hp).length_eq
      rw [List.length_erase_of_mem hg.1, List.length_map] at hlength
      have hpos := List.length_pos_of_mem hg.1
      rw [List.length_map] at hpos
      change (nodes.flatMap Node.dependencies).length + 1 = nodes.length
      omega

/--
A sum is a tree over its numbers. The square of the sum has one root too, but two paths lead there
from the sum.
-/
theorem isTree_exact_of_square :
    let one := Task.literal ⟨⟨0⟩⟩ 1.0 ⟨⟨1⟩, .ofMillis 0⟩
    let two := Task.literal ⟨⟨0⟩⟩ 2.0 ⟨⟨2⟩, .ofMillis 0⟩
    let sum := Task.composite ⟨⟨0⟩⟩ .addition one two 0 ⟨⟨3⟩, .ofMillis 0⟩
    let square := Task.composite ⟨⟨0⟩⟩ .multiplication sum sum 0 ⟨⟨4⟩, .ofMillis 0⟩
    (∃ g, ofTasks [sum, one, two] = .ok g ∧ g.root = some sum.id ∧ g.dependencyCount = 2 ∧
      ∃! path, Path [sum.node, one.node, two.node] one.id path sum.id) ∧
    ∃ g, ofTasks [square, sum, one, two] = .ok g ∧ g.root = some square.id ∧
      ¬ ∀ i ∈ [square.id, sum.id, one.id, two.id],
        ∃! path, Path [square.node, sum.node, one.node, two.node] i path square.id := by
  intro one two sum square
  have hsum : ofTasks [sum, one, two] = .ok ⟨[sum.node, one.node, two.node]⟩ := by rfl
  have hsquare : ofTasks [square, sum, one, two] =
      .ok ⟨[square.node, sum.node, one.node, two.node]⟩ := by rfl
  obtain ⟨htree, hroot⟩ := isTree_exact hsum
  obtain ⟨hwide, -⟩ := isTree_exact hsquare
  obtain ⟨r, hr, hpaths⟩ := htree.1 (by decide)
  obtain ⟨hr', -, hcount⟩ := hroot r hr hpaths
  have hdecided : TaskGraph.root ⟨[sum.node, one.node, two.node]⟩ = some sum.id := by decide
  cases hr'.symm.trans hdecided
  refine ⟨⟨_, hsum, hr', Nat.succ.inj hcount, hpaths one.id (by decide)⟩, _, hsquare, by decide,
    fun h => ?_⟩
  have hnot : isTree ⟨[square.node, sum.node, one.node, two.node]⟩ = false := by decide
  rw [hwide.2 ⟨square.id, by decide, h⟩] at hnot
  cases hnot

end Reckoner.TaskGraph
