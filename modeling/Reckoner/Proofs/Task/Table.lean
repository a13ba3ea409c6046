import Reckoner.Dispatch
import Reckoner.Proofs.Task.Standing
import Mathlib.Data.List.Basic

/-!
# Look-ups in the task table

What each change of the table does to every look-up. Every change but the arrival of a batch is
`put`, one task in the place of its old version, with at most `settle` after it.
-/

namespace Reckoner

theorem find?_of_nodup {α β : Type} [BEq β] [LawfulBEq β] {f : α → β} {x : α} {l : List α}
    (hn : (l.map f).Nodup) (hx : x ∈ l) : l.find? (fun y => f y == f x) = some x := by
  induction l with
  | nil => cases hx
  | cons y rest ih =>
    rw [List.map_cons, List.nodup_cons] at hn
    rw [List.find?_cons]
    cases hx with
    | head => simp
    | tail _ hx =>
      have hne : (f y == f x) = false := beq_eq_false_iff_ne.2 fun e =>
        hn.1 (e ▸ List.mem_map_of_mem hx)
      rw [hne]
      exact ih hn.2 hx

/-! ## Values of maps -/

section
variable {α β : Type} [Ord α]

theorem values_eq (map : Std.TreeMap α β) : map.values = map.toList.map Prod.snd := by
  have hfold : map.values = map.foldr (fun _ v rest => v :: rest) [] := rfl
  rw [hfold, Std.TreeMap.foldr_eq_foldr_toList, List.map_eq_foldr]

theorem mem_values [Std.TransOrd α] [Std.LawfulEqOrd α] {map : Std.TreeMap α β} {v : β} :
    v ∈ map.values ↔ ∃ k : α, map[k]? = some v := by
  simp only [values_eq, List.mem_map, Prod.exists, exists_eq_right,
    Std.TreeMap.mem_toList_iff_getElem?_eq_some]

/-- Values that carry their keys. -/
theorem map_values [Std.TransOrd α] [Std.LawfulEqOrd α] {map : Std.TreeMap α β} {f : β → α}
    (h : ∀ {k v}, map[k]? = some v → f v = k) : map.values.map f = map.keys := by
  rw [values_eq, List.map_map, ← Std.TreeMap.map_fst_toList_eq_keys]
  refine List.map_congr_left fun p hp => h ?_
  exact Std.TreeMap.mem_toList_iff_getElem?_eq_some.1 hp

end

namespace TaskTable

def idsOf (table : TaskTable) (owner : ExpressionId) : List TaskId := table.byOwner.getD owner []

theorem ofOwner_eq (table : TaskTable) (owner : ExpressionId) :
    table.ofOwner owner = (table.idsOf owner).filterMap table.get? := rfl

def resultOf (table : TaskTable) (id : TaskId) : Option Float :=
  (table.get? id).bind Task.completedResult

def put (table : TaskTable) (old t : Task) : TaskTable :=
  let queue := if old.status = .pending then table.queue.erase old.queueKey else table.queue
  { table with
    tasks := table.tasks.insert t.id t
    queue := if t.status = .pending then queue.insert t.queueKey else queue }

/-! ## Look-ups -/

@[simp] theorem get?_empty (i : TaskId) : empty.get? i = none := Std.TreeMap.getElem?_emptyc

theorem get?_add (table : TaskTable) (t : Task) (i : TaskId) :
    (table.add t).get? i = if t.id = i then some t else table.get? i := by
  simp only [get?, add, Std.TreeMap.getElem?_insert, Std.compare_eq_iff_eq]

theorem get?_put (table : TaskTable) (old t : Task) (i : TaskId) :
    (table.put old t).get? i = if t.id = i then some t else table.get? i := by
  simp only [get?, put, Std.TreeMap.getElem?_insert, Std.compare_eq_iff_eq]

theorem get?_put_self (table : TaskTable) (old t : Task) :
    (table.put old t).get? t.id = some t := by
  simp [get?_put]

@[simp] theorem idsOf_put (table : TaskTable) (old t : Task) (o : ExpressionId) :
    (table.put old t).idsOf o = table.idsOf o := rfl

@[simp] theorem consumersOf_put (table : TaskTable) (old t : Task) (i : TaskId) :
    (table.put old t).consumersOf i = table.consumersOf i := rfl

/-- A result is written once, however often its consumer is listed. -/
theorem getElem?_foldl_modify (id : TaskId) (r : Float) (j : TaskId) :
    ∀ (ids : List TaskId) (tasks : Std.TreeMap TaskId Task),
      (ids.foldl (fun tasks i => tasks.modify i (·.resolve id r)) tasks)[j]? =
        tasks[j]?.map fun t => if j ∈ ids then t.resolve id r else t
  | [], tasks => by simp
  | i :: ids, tasks => by
    rw [List.foldl_cons, getElem?_foldl_modify id r j ids, Std.TreeMap.getElem?_modify]
    by_cases h : i = j
    · subst h
      rw [if_pos (Std.compare_eq_iff_eq.2 rfl), Option.map_map]
      congr 1
      funext t
      by_cases hi : i ∈ ids <;> simp [hi]
    · rw [if_neg (fun e => h (Std.compare_eq_iff_eq.1 e))]
      simp [Ne.symm h]

theorem get?_propagate (table : TaskTable) (id : TaskId) (r : Float) (j : TaskId) :
    (table.propagate id r).get? j =
      (table.get? j).map fun t => if j ∈ table.consumersOf id then t.resolve id r else t :=
  getElem?_foldl_modify id r j _ _

theorem get?_settle (table : TaskTable) (p : Task) (j : TaskId) :
    (table.settle p).get? j = (table.get? j).map fun t =>
      match p.completedResult with
      | none => t
      | some r => if j ∈ table.consumersOf p.id then t.resolve p.id r else t := by
  cases h : p.completedResult with
  | none => simp [settle, h]
  | some r => simp only [settle, h]; exact get?_propagate table p.id r j

@[simp] theorem idsOf_settle (table : TaskTable) (p : Task) (o : ExpressionId) :
    (table.settle p).idsOf o = table.idsOf o := by
  unfold settle; split <;> rfl

@[simp] theorem queue_settle (table : TaskTable) (p : Task) :
    (table.settle p).queue = table.queue := by
  unfold settle; split <;> rfl

theorem exists_get?_settle {table : TaskTable} {p t : Task} {i : TaskId}
    (h : (table.settle p).get? i = some t) :
    ∃ u, table.get? i = some u ∧
      (t = u ∨ ∃ r, p.completedResult = some r ∧ t = u.resolve p.id r) := by
  rw [get?_settle] at h
  obtain ⟨u, hu, rfl⟩ := Option.map_eq_some_iff.1 h
  refine ⟨u, hu, ?_⟩
  split
  · exact .inl rfl
  · rename_i r hr
    split
    · exact .inr ⟨r, hr, rfl⟩
    · exact .inl rfl

theorem map_get?_settle {α : Type} {f : Task → α} (hf : ∀ t id r, f (t.resolve id r) = f t)
    (table : TaskTable) (p : Task) (i : TaskId) :
    ((table.settle p).get? i).map f = (table.get? i).map f := by
  rw [get?_settle, Option.map_map]
  congr 1
  funext t
  simp only [Function.comp]
  split
  · rfl
  · split
    · exact hf ..
    · rfl

theorem map_get?_put_settle {α : Type} {f : Task → α} (hf : ∀ t id r, f (t.resolve id r) = f t)
    (table : TaskTable) (old t p : Task) (i : TaskId) :
    (((table.put old t).settle p).get? i).map f =
      if t.id = i then some (f t) else (table.get? i).map f := by
  rw [map_get?_settle hf, get?_put]
  split <;> rfl

theorem standing_settle (table : TaskTable) (p : Task) (i : TaskId) :
    ((table.settle p).get? i).map Task.standing = (table.get? i).map Task.standing :=
  map_get?_settle Task.standing_resolve table p i

theorem resultOf_eq (table : TaskTable) (i : TaskId) :
    table.resultOf i = ((table.get? i).map Task.standing).bind Task.completedResult := by
  cases h : table.get? i with
  | none => simp [resultOf, h]
  | some t => simp [resultOf, h, Task.completedResult_standing]

theorem resultOf_settle (table : TaskTable) (p : Task) (i : TaskId) :
    (table.settle p).resultOf i = table.resultOf i := by
  rw [resultOf_eq, standing_settle, ← resultOf_eq]

/-! ## Batches -/

theorem firstClash?_eq_none {table : TaskTable} : ∀ {batch : List Task} {seen : Std.TreeSet TaskId},
    table.firstClash? seen batch = none ↔
      (batch.map Task.id).Nodup ∧ ∀ t ∈ batch, table.get? t.id = none ∧ t.id ∉ seen
  | [], seen => by simp [firstClash?]
  | t :: rest, seen => by
    have hc : table.tasks.contains t.id = (table.get? t.id).isSome :=
      Std.TreeMap.isSome_getElem?_eq_contains.symm
    simp only [firstClash?, hc, Std.TreeSet.contains_iff_mem, Bool.or_eq_true]
    split
    · rename_i h
      simp only [reduceCtorEq, List.mem_cons, forall_eq_or_imp, false_iff]
      intro hn
      rcases h with h | h
      · simp [hn.2.1.1] at h
      · exact hn.2.1.2 h
    · rename_i h
      simp only [not_or, Bool.not_eq_true, Option.isSome_eq_false_iff,
        Option.isNone_iff_eq_none] at h
      rw [firstClash?_eq_none]
      simp only [List.map_cons, List.nodup_cons, List.mem_map, not_exists, not_and, List.mem_cons,
        forall_eq_or_imp, Std.TreeSet.mem_insert, Std.compare_eq_iff_eq, not_or]
      constructor
      · rintro ⟨hn, hr⟩
        exact ⟨⟨fun u hu e => (hr u hu).2.1 e.symm, hn⟩, h, fun u hu =>
          ⟨(hr u hu).1, (hr u hu).2.2⟩⟩
      · rintro ⟨⟨hi, hn⟩, -, hr⟩
        exact ⟨hn, fun u hu => ⟨(hr u hu).1, fun e => hi u hu e.symm, (hr u hu).2⟩⟩

theorem insertAll_eq_ok {table : TaskTable} {batch : List Task} (hn : (batch.map Task.id).Nodup)
    (hf : ∀ t ∈ batch, table.get? t.id = none) :
    table.insertAll batch = (.ok (), batch.foldl settle (batch.foldl add table)) := by
  have : table.firstClash? ∅ batch = none :=
    firstClash?_eq_none.2 ⟨hn, fun t ht => ⟨hf t ht, by simp⟩⟩
  simp only [insertAll, this]

theorem get?_foldl_add_of_not_mem {i : TaskId} : ∀ {batch : List Task} {table : TaskTable},
    i ∉ batch.map Task.id → (batch.foldl add table).get? i = table.get? i
  | [], _, _ => rfl
  | t :: rest, table, hi => by
    rw [List.map_cons, List.mem_cons, not_or] at hi
    rw [List.foldl_cons, get?_foldl_add_of_not_mem hi.2, get?_add, if_neg (Ne.symm hi.1)]

theorem get?_foldl_add_of_mem {t : Task} : ∀ {batch : List Task} {table : TaskTable},
    (batch.map Task.id).Nodup → t ∈ batch → (batch.foldl add table).get? t.id = some t
  | u :: rest, table, hn, ht => by
    rw [List.map_cons, List.nodup_cons] at hn
    rw [List.foldl_cons]
    cases ht with
    | head => rw [get?_foldl_add_of_not_mem hn.1, get?_add, if_pos rfl]
    | tail _ ht => exact get?_foldl_add_of_mem hn.2 ht

theorem map_get?_foldl_settle {α : Type} {f : Task → α} (hf : ∀ t id r, f (t.resolve id r) = f t)
    (i : TaskId) :
    ∀ (batch : List Task) (table : TaskTable),
      ((batch.foldl settle table).get? i).map f = (table.get? i).map f
  | [], _ => rfl
  | p :: rest, table => by rw [List.foldl_cons, map_get?_foldl_settle hf i rest, map_get?_settle hf]

theorem idsOf_foldl_settle (o : ExpressionId) : ∀ (batch : List Task) (table : TaskTable),
    (batch.foldl settle table).idsOf o = table.idsOf o
  | [], _ => rfl
  | p :: rest, table => by rw [List.foldl_cons, idsOf_foldl_settle o rest, idsOf_settle]

/-! ## The tasks of one expression -/

theorem map_ofOwner {α : Type} (f : Task → α) (table : TaskTable) (o : ExpressionId) :
    (table.ofOwner o).map f = (table.idsOf o).filterMap fun i => (table.get? i).map f := by
  rw [ofOwner_eq, List.map_filterMap]

theorem map_ofOwner_congr {α : Type} {f : Task → α} {a b : TaskTable} {o : ExpressionId}
    (hids : b.idsOf o = a.idsOf o) (hget : ∀ i ∈ a.idsOf o, (b.get? i).map f = (a.get? i).map f) :
    (b.ofOwner o).map f = (a.ofOwner o).map f := by
  rw [map_ofOwner, map_ofOwner, hids]
  exact List.filterMap_congr hget

end TaskTable

end Reckoner
