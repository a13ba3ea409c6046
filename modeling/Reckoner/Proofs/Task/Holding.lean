import Reckoner.Proofs.Outcome
import Reckoner.Proofs.Task.Changes

/-!
# Tables that hold a plan

An expression owns the tasks of its plan, whatever has been reported for them (`Holds`). Then every
part of its formula is worked out, and its tasks always have an outcome.
-/

namespace Reckoner.TaskTable

def Holds (table : TaskTable) (times : OperationTimes) (owner : ExpressionId) (stamps : Nat → Stamp)
    (f : Formula) : Prop :=
  (table.ofOwner owner).map Task.blueprint = (f.plan times owner stamps).map Task.blueprint

theorem exists_of_forall₂ {α β : Type} {R : α → β → Prop} {as : List α} {bs : List β}
    (h : List.Forall₂ R as bs) {a : α} (ha : a ∈ as) : ∃ b ∈ bs, R a b := by
  induction h with
  | nil => cases ha
  | cons hr _ ih =>
    rcases List.mem_cons.1 ha with rfl | ha
    · exact ⟨_, List.mem_cons_self, hr⟩
    · obtain ⟨b, hb, hr⟩ := ih ha
      exact ⟨b, List.mem_cons_of_mem _ hb, hr⟩

namespace Holds

variable {table : TaskTable} {times : OperationTimes} {owner : ExpressionId} {stamps : Nat → Stamp}
  {f : Formula}

theorem of_standing {table' : TaskTable} {tasks : List Task}
    (h : tasks.map Task.blueprint = (f.plan times owner stamps).map Task.blueprint)
    (hs : (table'.ofOwner owner).map Task.standing = tasks.map Task.standing) :
    table'.Holds times owner stamps f := by
  have hs := congrArg (List.map Task.blueprint) hs
  simp only [List.map_map, Function.comp_def, Task.blueprint_standing] at hs
  exact hs.trans h

variable (h : table.Holds times owner stamps f)
include h

theorem reported {t : Task} (ht : table.get? t.id = some t) (r : Report) (now : Instant)
    (hi : table.Indexed) : (table.reported t r now).Holds times owner stamps f :=
  (blueprint_ofOwner_reported ht r now hi owner).trans h

theorem ids_ofOwner : (table.ofOwner owner).map Task.id =
    (f.plan times owner stamps).map Task.id := by
  have hb := congrArg (List.map Task.id) h
  rwa [List.map_map, List.map_map] at hb

theorem exists_mem_plan {t : Task} (ht : t ∈ table.ofOwner owner) :
    ∃ u ∈ f.plan times owner stamps, u.id = t.id :=
  List.mem_map.1 (h.ids_ofOwner ▸ List.mem_map_of_mem ht)

theorem exists_mem_ofOwner {t : Task} (ht : t ∈ f.plan times owner stamps) :
    ∃ u ∈ table.ofOwner owner, u.id = t.id :=
  List.mem_map.1 (h.ids_ofOwner.symm ▸ List.mem_map_of_mem ht)

theorem nodup (hi : table.Indexed) : ((f.plan times owner stamps).map Task.id).Nodup := by
  rw [← h.ids_ofOwner, hi.ids_ofOwner]
  exact hi.nodup_idsOf owner

theorem get?_of_mem_plan (hi : table.Indexed) {t : Task} (ht : t ∈ f.plan times owner stamps) :
    ∃ u, table.get? t.id = some u ∧ u.owner = owner ∧ u.blueprint = t.blueprint := by
  have hm : t.blueprint ∈ (table.ofOwner owner).map Task.blueprint := by
    rw [h]
    exact List.mem_map_of_mem ht
  obtain ⟨u, hu, hb⟩ := List.mem_map.1 hm
  obtain ⟨hget, ho⟩ := hi.mem_ofOwner.1 hu
  have hid : u.id = t.id := (Task.fields_of_blueprint hb).1
  exact ⟨u, by rw [← hid, hget], ho, hb⟩

theorem worksOut_root (hi : table.Indexed) :
    table.WorksOut owner (Plan.ofFormula times owner stamps 0 f).root.id f :=
  (worksOut_plan f 0 fun _ ht => (h.get?_of_mem_plan hi ht).imp fun _ ⟨hu, _, hb⟩ => ⟨hu, hb⟩).1

theorem worksOut_parts (hi : table.Indexed) :
    List.Forall₂ (table.WorksOut owner) ((f.plan times owner stamps).map Task.id) f.parts :=
  (worksOut_plan f 0 fun _ ht => (h.get?_of_mem_plan hi ht).imp fun _ ⟨hu, _, hb⟩ => ⟨hu, hb⟩).2

theorem worksOut (hi : table.Indexed) {t : Task} (ht : t ∈ table.ofOwner owner) :
    ∃ g ∈ f.parts, table.WorksOut owner t.id g := by
  obtain ⟨u, hu, hid⟩ := h.exists_mem_plan ht
  rw [← hid]
  exact exists_of_forall₂ (h.worksOut_parts hi) (List.mem_map_of_mem hu)

variable (hs : table.Sound)
include hs

omit h in
theorem coherent_of_mem : ∀ t ∈ table.ofOwner owner, t.Coherent :=
  fun _ ht => hs.coherent (hs.indexed.mem_ofOwner.1 ht).1

theorem exists_outcome : ∃ o, Outcome.ofTasks (table.ofOwner owner) = .ok o := by
  rcases Outcome.cases_of_plan h (h.nodup hs.indexed) (coherent_of_mem hs) with
    ⟨_, -, -, ho⟩ | ⟨-, -, ho⟩ | ⟨-, _, _, -, -, ho⟩ <;> exact ⟨_, ho⟩

omit h in
theorem resultOf_isSome {t : Task} (ht : t ∈ table.ofOwner owner) :
    (table.resultOf t.id).isSome ↔ t.status = .completed := by
  have hget := (hs.indexed.mem_ofOwner.1 ht).1
  rw [resultOf, hget, (hs.coherent hget).completed_iff]
  rfl

theorem outcome_cases :
    (∃ t ∈ table.ofOwner owner, t.status = .failed ∧ ∃ m, t.error = some m ∧
      Outcome.ofTasks (table.ofOwner owner) = .ok (.failed m)) ∨
    ((∀ t ∈ table.ofOwner owner, t.status ≠ .failed) ∧
      (∃ t ∈ f.plan times owner stamps, table.resultOf t.id = none) ∧
      Outcome.ofTasks (table.ofOwner owner) = .ok .inProgress) ∨
    ((∀ t ∈ table.ofOwner owner, t.status ≠ .failed) ∧
      (∀ t ∈ f.plan times owner stamps, (table.resultOf t.id).isSome) ∧
      ∃ v, table.resultOf (Plan.ofFormula times owner stamps 0 f).root.id = some v ∧
        Outcome.ofTasks (table.ofOwner owner) = .ok (.resolved v)) := by
  rcases Outcome.cases_of_plan h (h.nodup hs.indexed) (coherent_of_mem hs) with
    ⟨t, ht, hf, ho⟩ | ⟨hf, ⟨t, ht, hw⟩, ho⟩ | ⟨hc, t, r, hlast, hr, ho⟩
  · obtain ⟨m, hm⟩ := Option.isSome_iff_exists.1 ((coherent_of_mem hs t ht).error.2 hf)
    rw [hm] at ho
    exact .inl ⟨t, ht, hf, m, hm, ho⟩
  · obtain ⟨u, hu, hid⟩ := h.exists_mem_plan ht
    refine .inr (.inl ⟨hf, ⟨u, hu, ?_⟩, ho⟩)
    rw [hid, ← Option.not_isSome_iff_eq_none, resultOf_isSome hs ht]
    exact hw
  · have hf : ∀ t ∈ table.ofOwner owner, t.status ≠ .failed := fun t ht => by simp [hc t ht]
    refine .inr (.inr ⟨hf, fun u hu => ?_, r, ?_, ho⟩)
    · obtain ⟨v, hv, hid⟩ := h.exists_mem_ofOwner hu
      rw [← hid, resultOf_isSome hs hv]
      exact hc v hv
    · -- the tasks arrive in the order of the plan, so the last of them is the root
      have hroot := congrArg List.getLast? h.ids_ofOwner
      rw [List.getLast?_map, List.getLast?_map, hlast, Formula.plan, Plan.tasks,
        List.getLast?_append] at hroot
      have hid : t.id = (Plan.ofFormula times owner stamps 0 f).root.id := by simpa using hroot
      have hget := (hs.indexed.mem_ofOwner.1 (List.mem_of_getLast? hlast)).1
      rw [← hid, resultOf, hget]
      exact hr

end Holds

end Reckoner.TaskTable
