import Reckoner.Proofs.Task.Derivation

/-!
# Reports and arrivals

The two changes of the table that matter to expressions: a report for a stored task, and the arrival
of the tasks of a plan. A report changes the standing of its task and of no other.
-/

namespace Reckoner

/-! ## Reports -/

namespace Report

section
variable (r : Report) (t : Task) (now : Instant)

theorem blueprint_apply : (r.apply t now).blueprint = t.blueprint := by cases r <;> rfl

theorem coherent_apply : (r.apply t now).Coherent := by
  cases r with
  | completed v => exact .complete t v now
  | failed m => exact .fail t m now

theorem isFinished_apply : (r.apply t now).isFinished = true := by
  cases r <;> simp [apply, Task.isFinished, Task.complete, Task.fail]

theorem fields_apply : (r.apply t now).id = t.id ∧ (r.apply t now).owner = t.owner ∧
    (r.apply t now).left = t.left ∧ (r.apply t now).right = t.right ∧
    (r.apply t now).dependencies = t.dependencies := by
  cases r <;> exact ⟨rfl, rfl, rfl, rfl, rfl⟩

end

def result? : Report → Option Float
  | completed v => some v
  | failed _ => none

theorem completedResult_apply (r : Report) (t : Task) (now : Instant) :
    (r.apply t now).completedResult = r.result? := by
  cases r <;> simp [apply, result?]

end Report

namespace TaskTable

def reported (table : TaskTable) (t : Task) (r : Report) (now : Instant) : TaskTable :=
  (table.put t (r.apply t now)).settle (r.apply t now)

section
variable (table : TaskTable) (t : Task) (r : Report) (now : Instant)

theorem idsOf_reported (o : ExpressionId) : (table.reported t r now).idsOf o = table.idsOf o := by
  rw [TaskTable.reported, idsOf_settle, idsOf_put]

theorem map_get?_reported {α : Type} {f : Task → α} (hf : ∀ t id r, f (t.resolve id r) = f t)
    (i : TaskId) :
    ((table.reported t r now).get? i).map f =
      if t.id = i then some (f (r.apply t now)) else (table.get? i).map f := by
  rw [TaskTable.reported, map_get?_put_settle hf, (r.fields_apply t now).1]

theorem standing_reported (i : TaskId) : ((table.reported t r now).get? i).map Task.standing =
    if t.id = i then some (r.apply t now).standing else (table.get? i).map Task.standing :=
  table.map_get?_reported t r now Task.standing_resolve i

theorem resultOf_reported (i : TaskId) :
    (table.reported t r now).resultOf i = if t.id = i then r.result? else table.resultOf i := by
  rw [TaskTable.reported, resultOf_settle, resultOf_put, (r.fields_apply t now).1,
    r.completedResult_apply]

end

section
variable {table : TaskTable} {t : Task} (ht : table.get? t.id = some t) (r : Report) (now : Instant)
include ht

theorem get?_apply : table.get? (r.apply t now).id = some t := by
  rw [(r.fields_apply t now).1, ht]

theorem replace_apply : table.replace (r.apply t now) = (.ok (), table.reported t r now) := by
  obtain ⟨-, ho, -, -, hd⟩ := r.fields_apply t now
  exact replace_eq_ok (get?_apply ht r now) ho hd

theorem Sound.reported (h : table.Sound) : (table.reported t r now).Sound := by
  obtain ⟨-, ho, hl, hr, hd⟩ := r.fields_apply t now
  exact h.put_settle (get?_apply ht r now) (r.coherent_apply t now) ho hl hr hd

theorem keeps_reported : table.Keeps (table.reported t r now) :=
  (keeps_put (get?_apply ht r now) (r.blueprint_apply t now)).trans (keeps_settle _ _)

theorem exists_get?_of_reported {i : TaskId} {u : Task}
    (hu : (table.reported t r now).get? i = some u) :
    ∃ v, table.get? i = some v ∧ u.blueprint = v.blueprint := by
  have hs := table.standing_reported t r now i
  rw [hu, Option.map_some] at hs
  split at hs
  · rename_i e
    refine ⟨t, e ▸ ht, ?_⟩
    rw [Task.blueprint_eq_of_standing_eq (Option.some.inj hs), r.blueprint_apply]
  · obtain ⟨v, hv, e⟩ := Option.map_eq_some_iff.1 hs.symm
    exact ⟨v, hv, Task.blueprint_eq_of_standing_eq e.symm⟩

theorem standing_reported_of_ne (h : table.Indexed) {o : ExpressionId} (ho : t.owner ≠ o) :
    ∀ i ∈ table.idsOf o,
      ((table.reported t r now).get? i).map Task.standing = (table.get? i).map Task.standing :=
  h.standing_put_settle_of_ne (get?_apply ht r now) _ ho

theorem blueprint_ofOwner_reported (h : table.Indexed) (o : ExpressionId) :
    ((table.reported t r now).ofOwner o).map Task.blueprint =
      (table.ofOwner o).map Task.blueprint := by
  refine map_ofOwner_congr (table.idsOf_reported t r now o) fun i hi => ?_
  obtain ⟨u, hu, -⟩ := h.mem_idsOf.1 hi
  obtain ⟨v, hv, hb⟩ := keeps_reported ht r now hu
  rw [hu, hv, Option.map_some, Option.map_some, hb]

theorem exists_mem_reported (h : table.Sound) :
    ∃ u ∈ (table.reported t r now).ofOwner t.owner, u.standing = (r.apply t now).standing := by
  have hs := table.standing_reported t r now t.id
  rw [if_pos rfl] at hs
  obtain ⟨u, hu, e⟩ := Option.map_eq_some_iff.1 hs
  obtain ⟨hid, ho, -⟩ := Task.fields_of_blueprint (Task.blueprint_eq_of_standing_eq e)
  obtain ⟨hid', ho', -⟩ := r.fields_apply t now
  refine ⟨u, (Sound.reported ht r now h).indexed.mem_ofOwner.2 ⟨?_, ho.trans ho'⟩, e⟩
  rw [hid, hid', hu]

/-- A task that has failed after a report has been reported, or had failed before. -/
theorem failed_of_reported (h : table.Sound) {o : ExpressionId}
    (hf : ∀ u ∈ table.ofOwner o, u.status ≠ .failed) {u : Task}
    (hu : u ∈ (table.reported t r now).ofOwner o) (hfail : u.status = .failed) :
    ∃ m, r = .failed m ∧ u.error = some m := by
  obtain ⟨hget, ho⟩ := (Sound.reported ht r now h).indexed.mem_ofOwner.1 hu
  have hs := table.standing_reported t r now u.id
  rw [hget, Option.map_some] at hs
  split at hs
  · have e := Option.some.inj hs
    cases r with
    | completed v =>
      cases (Task.failed_iff_of_standing_eq e).1 hfail
    | failed m =>
      have e := congrArg Task.error e
      exact ⟨m, rfl, e⟩
  · obtain ⟨v, hv, e⟩ := Option.map_eq_some_iff.1 hs.symm
    obtain ⟨hid, ho', -⟩ := Task.fields_of_blueprint (Task.blueprint_eq_of_standing_eq e)
    refine absurd ((Task.failed_iff_of_standing_eq e).2 hfail)
      (hf v (h.indexed.mem_ofOwner.2 ⟨?_, ho'.trans ho⟩))
    rw [hid, hv]

end

/-! ## Arrivals -/

def arrived (table : TaskTable) (batch : List Task) : TaskTable :=
  batch.foldl settle (batch.foldl add table)

def Clashes (table : TaskTable) (batch : List Task) : Prop :=
  ¬ (batch.map Task.id).Nodup ∨ ∃ t ∈ batch, ∃ u, table.get? t.id = some u

section
variable {table : TaskTable} {batch : List Task}

theorem insertAll_cases (table : TaskTable) (batch : List Task) :
    table.Clashes batch ∧ (∃ fault, table.insertAll batch = (.error fault, table)) ∨
      ¬ table.Clashes batch ∧ (batch.map Task.id).Nodup ∧ (∀ t ∈ batch, table.get? t.id = none) ∧
        table.insertAll batch = (.ok (), table.arrived batch) := by
  cases hc : table.firstClash? ∅ batch with
  | none =>
    obtain ⟨hn, hf⟩ := firstClash?_eq_none.1 hc
    refine .inr ⟨?_, hn, fun t ht => (hf t ht).1, by simp only [insertAll, hc, arrived]⟩
    rintro (hd | ⟨t, ht, u, hu⟩)
    · exact hd hn
    · rw [(hf t ht).1] at hu
      cases hu
  | some i =>
    refine .inl ⟨?_, _, by simp only [insertAll, hc]; rfl⟩
    by_contra hno
    rw [Clashes, not_or, not_not] at hno
    have hnone : table.firstClash? ∅ batch = none := by
      refine firstClash?_eq_none.2 ⟨hno.1, fun t ht => ⟨?_, by simp⟩⟩
      exact Option.eq_none_iff_forall_ne_some.2 fun u hu => hno.2 ⟨t, ht, u, hu⟩
    rw [hnone] at hc
    cases hc

theorem of_insertAll_eq_ok {table' : TaskTable} (h : table.insertAll batch = (.ok (), table')) :
    (batch.map Task.id).Nodup ∧ (∀ t ∈ batch, table.get? t.id = none) ∧
    table' = table.arrived batch := by
  rcases table.insertAll_cases batch with ⟨-, fault, e⟩ | ⟨-, hn, hf, e⟩ <;> rw [e] at h
  · cases h
  · exact ⟨hn, hf, (congrArg Prod.snd h).symm⟩

theorem map_get?_arrived_of_not_mem {α : Type} {f : Task → α}
    (hf : ∀ t id r, f (t.resolve id r) = f t) (table : TaskTable) {i : TaskId}
    (hi : i ∉ batch.map Task.id) : ((table.arrived batch).get? i).map f = (table.get? i).map f := by
  rw [arrived, map_get?_foldl_settle hf, get?_foldl_add_of_not_mem hi]

theorem standing_arrived_of_not_mem (table : TaskTable) {i : TaskId} (hi : i ∉ batch.map Task.id) :
    ((table.arrived batch).get? i).map Task.standing = (table.get? i).map Task.standing :=
  map_get?_arrived_of_not_mem Task.standing_resolve table hi

theorem map_get?_arrived_of_mem {α : Type} {f : Task → α} (hf : ∀ t id r, f (t.resolve id r) = f t)
    (table : TaskTable) (hn : (batch.map Task.id).Nodup) {t : Task} (ht : t ∈ batch) :
    ((table.arrived batch).get? t.id).map f = some (f t) := by
  rw [arrived, map_get?_foldl_settle hf, get?_foldl_add_of_mem hn ht, Option.map_some]

theorem standing_arrived_of_mem (table : TaskTable) (hn : (batch.map Task.id).Nodup) {t : Task}
    (ht : t ∈ batch) : ((table.arrived batch).get? t.id).map Task.standing = some t.standing :=
  map_get?_arrived_of_mem Task.standing_resolve table hn ht

theorem idsOf_arrived (o : ExpressionId) :
    (table.arrived batch).idsOf o = table.idsOf o ++ (batch.filter (·.owner = o)).map Task.id := by
  rw [arrived, idsOf_foldl_settle, idsOf_foldl_add]

theorem not_mem_of_get? (hf : ∀ t ∈ batch, table.get? t.id = none) {i : TaskId} {t : Task}
    (ht : table.get? i = some t) : i ∉ batch.map Task.id := by
  intro hi
  obtain ⟨u, hu, rfl⟩ := List.mem_map.1 hi
  rw [hf u hu] at ht
  cases ht

theorem keeps_arrived (hf : ∀ t ∈ batch, table.get? t.id = none) :
    table.Keeps (table.arrived batch) := by
  intro i t ht
  have hs := table.standing_arrived_of_not_mem (not_mem_of_get? hf ht)
  rw [ht] at hs
  obtain ⟨u, hu, e⟩ := Option.map_eq_some_iff.1 hs
  exact ⟨u, hu, Task.blueprint_eq_of_standing_eq e⟩

theorem exists_get?_of_arrived (hn : (batch.map Task.id).Nodup) {i : TaskId} {u : Task}
    (hu : (table.arrived batch).get? i = some u) :
    ∃ t, (t ∈ batch ∧ t.id = i ∨ table.get? i = some t) ∧ u.standing = t.standing := by
  by_cases hi : i ∈ batch.map Task.id
  · obtain ⟨t, ht, rfl⟩ := List.mem_map.1 hi
    have hs := table.standing_arrived_of_mem hn ht
    rw [hu] at hs
    exact ⟨t, .inl ⟨ht, rfl⟩, Option.some.inj hs⟩
  · have hs := table.standing_arrived_of_not_mem hi
    rw [hu, Option.map_some] at hs
    obtain ⟨t, ht, e⟩ := Option.map_eq_some_iff.1 hs.symm
    exact ⟨t, .inr ht, e.symm⟩

theorem standing_ofOwner_arrived (hn : (batch.map Task.id).Nodup) {o : ExpressionId}
    (ho : ∀ t ∈ batch, t.owner = o) (hids : table.idsOf o = []) :
    ((table.arrived batch).ofOwner o).map Task.standing = batch.map Task.standing := by
  have hall : batch.filter (·.owner = o) = batch :=
    List.filter_eq_self.2 fun t ht => by simp [ho t ht]
  rw [map_ofOwner, idsOf_arrived, hids, hall, List.nil_append, List.filterMap_map]
  rw [← List.filterMap_eq_map]
  exact List.filterMap_congr fun t ht => table.standing_arrived_of_mem hn ht

theorem standing_arrived_of_ne (h : table.Indexed) (hf : ∀ t ∈ batch, table.get? t.id = none)
    {o : ExpressionId} (ho : ∀ t ∈ batch, t.owner ≠ o) :
    (table.arrived batch).idsOf o = table.idsOf o ∧ ∀ i ∈ table.idsOf o,
      ((table.arrived batch).get? i).map Task.standing = (table.get? i).map Task.standing := by
  have hnone : batch.filter (·.owner = o) = [] :=
    List.filter_eq_nil_iff.2 fun t ht => by simp [ho t ht]
  refine ⟨by rw [idsOf_arrived, hnone, List.map_nil, List.append_nil], fun i hi => ?_⟩
  obtain ⟨t, ht, -⟩ := h.mem_idsOf.1 hi
  exact table.standing_arrived_of_not_mem (not_mem_of_get? hf ht)

end

theorem Sound.arrived_plan {table : TaskTable} (h : table.Sound) {times : OperationTimes}
    {owner : ExpressionId} {stamps : Nat → Stamp} {f : Formula}
    (hn : ((f.plan times owner stamps).map Task.id).Nodup)
    (hf : ∀ t ∈ f.plan times owner stamps, table.get? t.id = none) :
    (table.arrived (f.plan times owner stamps)).Sound := by
  refine h.insertAll hn hf (fun t ht => ?_) fun t ht => Plan.coherent_of_mem ht
  constructor
  · intro source value e
    have hs := Plan.source_mem_of_mem ht (.inl e)
    exact ⟨hs, fun r _ => .inr (Plan.dependency_mem_plan ht hs)⟩
  · intro source value e
    have hs := Plan.source_mem_of_mem ht (.inr e)
    exact ⟨hs, fun r _ => .inr (Plan.dependency_mem_plan ht hs)⟩

end TaskTable

end Reckoner
