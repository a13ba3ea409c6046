import Reckoner.Proofs.Task.Changes
import Reckoner.Proofs.Task.Dispatch

/-!
# Slots that lag behind

A slot lags if it lacks a result that the table holds. Where none does, a task whose dependencies
are completed has its operands; and a slot that lags after a change lagged before it, or came with
it.
-/

namespace Reckoner

namespace Task

def supply (t : Task) : Operand × Operand × Option Float := (t.left, t.right, t.completedResult)

structure Regular (t : Task) : Prop where
  slots : (t.left.source? = none ∧ t.right.source? = none ∧ t.dependencies = []) ∨
    ∃ l r, t.left.source? = some l ∧ t.right.source? = some r ∧ t.dependencies = [l, r]
  result : t.status = .completed → t.result.isSome

namespace Regular

theorem literal (owner : ExpressionId) (v : Float) (stamp : Stamp) :
    (Task.literal owner v stamp).Regular :=
  ⟨.inl ⟨rfl, rfl, rfl⟩, fun _ => rfl⟩

theorem composite (owner : ExpressionId) (op : Operation) (l r : Task) (duration : UInt64)
    (stamp : Stamp) : (Task.composite owner op l r duration stamp).Regular :=
  ⟨.inr ⟨l.id, r.id, rfl, rfl, rfl⟩, fun h => by cases h⟩

variable {t : Task} (h : t.Regular)
include h

theorem start (now : Instant) : (t.start now).Regular := ⟨h.slots, fun hs => by cases hs⟩

theorem complete (r : Float) (now : Instant) : (t.complete r now).Regular := ⟨h.slots, fun _ => rfl⟩

theorem fail (m : String) (now : Instant) : (t.fail m now).Regular :=
  ⟨h.slots, fun hs => by cases hs⟩

theorem requeue : t.requeue.Regular := ⟨h.slots, fun hs => by cases hs⟩

theorem resolve (id : TaskId) (r : Float) : (t.resolve id r).Regular := by
  refine ⟨?_, h.result⟩
  have hl : (t.left.resolve id r).source? = t.left.source? := by cases t.left <;> rfl
  have hr : (t.right.resolve id r).source? = t.right.source? := by cases t.right <;> rfl
  simp only [Task.resolve, hl, hr]
  exact h.slots

theorem mem_dependencies {o : Operand} (ho : o = t.left ∨ o = t.right) {s : TaskId}
    (hs : o.source? = some s) : s ∈ t.dependencies := by
  rcases h.slots with ⟨hl, hr, -⟩ | ⟨l, r, hl, hr, hd⟩
  · rcases ho with rfl | rfl
    · rw [hl] at hs
      cases hs
    · rw [hr] at hs
      cases hs
  · rw [hd]
    rcases ho with rfl | rfl
    · cases hl.symm.trans hs
      simp
    · cases hr.symm.trans hs
      simp

end Regular

end Task

namespace TaskTable

/-- The task lacks the result of `s` in a slot for it, though the table holds the result. -/
def Lags (table : TaskTable) (t : Task) (s : TaskId) : Prop :=
  ∃ r, table.resultOf s = some r ∧ ∃ o, (o = t.left ∨ o = t.right) ∧ o.source? = some s ∧
    o.value? ≠ some r

theorem not_lags {table : TaskTable} {t : Task} {s : TaskId}
    (hl : t.left.source? = some s → t.left.value? = table.resultOf s)
    (hr : t.right.source? = some s → t.right.value? = table.resultOf s) : ¬ table.Lags t s := by
  rintro ⟨r, hs, o, rfl | rfl, hsource, hvalue⟩
  · exact hvalue ((hl hsource).trans hs)
  · exact hvalue ((hr hsource).trans hs)

def Supplied (table : TaskTable) (t : Task) : Prop :=
  ∃ a b, t.operandValues = some (a, b) ∧
    (t.dependencies = [] ∨ t.dependencies.map table.resultOf = [some a, some b])

def Regular (table : TaskTable) : Prop := ∀ ⦃i t⦄, table.get? i = some t → t.Regular

theorem Regular.supplied {table : TaskTable} (h : table.Regular) {t : Task} (ht : t.Regular)
    (hd : ∀ d ∈ t.dependencies, ∃ u, table.get? d = some u ∧ u.status = .completed)
    (hl : ∀ d ∈ t.dependencies, ¬ table.Lags t d) : table.Supplied t := by
  have known : ∀ d ∈ t.dependencies, ∃ r, table.resultOf d = some r := by
    intro d hm
    obtain ⟨u, hu, hc⟩ := hd d hm
    obtain ⟨r, hr⟩ := Option.isSome_iff_exists.1 ((h hu).result hc)
    exact ⟨r, by rw [resultOf, hu, Option.bind_some, Task.completedResult, if_pos hc, hr]⟩
  have value : ∀ {o s r}, (o = t.left ∨ o = t.right) → o.source? = some s →
      table.resultOf s = some r →
      o.value? = some r := by
    intro o s r ho hs hr
    by_contra hne
    exact hl s (ht.mem_dependencies ho hs) ⟨r, hr, o, ho, hs, hne⟩
  rcases ht.slots with ⟨hsl, hsr, hnil⟩ | ⟨l, r, hsl, hsr, hlr⟩
  · cases hleft : t.left with
    | result => rw [hleft] at hsl; cases hsl
    | literal a =>
      cases hright : t.right with
      | result => rw [hright] at hsr; cases hsr
      | literal b => exact ⟨a, b, by rw [Task.operandValues, hleft, hright]; rfl, .inl hnil⟩
  · obtain ⟨a, ha⟩ := known l (by simp [hlr])
    obtain ⟨b, hb⟩ := known r (by simp [hlr])
    refine ⟨a, b, ?_, .inr (by simp [hlr, ha, hb])⟩
    rw [Task.operandValues, value (.inl rfl) hsl ha, value (.inr rfl) hsr hb]
    rfl

theorem Regular.settle {table : TaskTable} (h : table.Regular) (p : Task) :
    (table.settle p).Regular := by
  intro i t ht
  obtain ⟨u, hu, rfl | ⟨r, -, rfl⟩⟩ := exists_get?_settle ht
  · exact h hu
  · exact (h hu).resolve p.id r

theorem Regular.foldl_settle : ∀ (batch : List Task) {table : TaskTable}, table.Regular →
    (batch.foldl TaskTable.settle table).Regular
  | [], _, h => h
  | p :: rest, _, h => foldl_settle rest (h.settle p)

/--
Writing the result of `p` into its slots leaves no slot for it behind, and no other slot more than
before.
-/
theorem Lags.of_settle {table : TaskTable} (hi : table.Indexed) (hr : table.Regular) {p : Task}
    (hp : table.resultOf p.id = p.completedResult) {i s : TaskId} {t : Task}
    (ht : (table.settle p).get? i = some t) (hl : (table.settle p).Lags t s) :
    (p.id = s → p.completedResult = none) ∧ ∃ u, table.get? i = some u ∧ table.Lags u s := by
  obtain ⟨r, hs, o, ho, hsource, hvalue⟩ := hl
  rw [resultOf_settle] at hs
  rw [get?_settle] at ht
  obtain ⟨u, hu, rfl⟩ := Option.map_eq_some_iff.1 ht
  cases hc : p.completedResult with
  | none =>
    rw [hc] at ho
    exact ⟨fun _ => rfl, u, hu, r, hs, o, ho, hsource, hvalue⟩
  | some r₀ =>
    simp only [hc] at ho
    have hr₀ : p.id = s → r₀ = r := by
      rintro rfl
      exact Option.some.inj (hc.symm.trans (hp.symm.trans hs))
    by_cases hj : i ∈ table.consumersOf p.id
    · rw [if_pos hj] at ho
      obtain ⟨o', ho', rfl⟩ : ∃ o', (o' = u.left ∨ o' = u.right) ∧ o = o'.resolve p.id r₀ := by
        rcases ho with rfl | rfl
        · exact ⟨u.left, .inl rfl, rfl⟩
        · exact ⟨u.right, .inr rfl, rfl⟩
      cases o' with
      | literal v => cases hsource
      | result source v =>
        cases hsource
        have hne : p.id ≠ s := by
          intro e
          simp [Operand.resolve, Operand.value?, e, hr₀ e] at hvalue
        refine ⟨fun e => absurd e hne, u, hu, r, hs, .result s v, ho', rfl, ?_⟩
        simpa [Operand.resolve, Operand.value?, Ne.symm hne] using hvalue
    · rw [if_neg hj] at ho
      refine ⟨fun e => ?_, u, hu, r, hs, o, ho, hsource, hvalue⟩
      -- a task with a slot for the result is among its consumers
      exact absurd (hi.mem_consumersOf.2 ⟨u, hu, e ▸ (hr hu).mem_dependencies ho hsource⟩) hj

theorem Lags.of_foldl_settle {i s : TaskId} {t : Task} :
    ∀ {batch : List Task} {table : TaskTable}, table.Indexed →
    table.Regular → (∀ p ∈ batch, table.resultOf p.id = p.completedResult) →
      (batch.foldl TaskTable.settle table).get? i = some t →
      (batch.foldl TaskTable.settle table).Lags t s →
        (∀ p ∈ batch, p.id = s → p.completedResult = none) ∧ ∃ u, table.get? i = some u ∧
          table.Lags u s
  | [], _, _, _, _, ht, hl => ⟨by simp, t, ht, hl⟩
  | p :: rest, table, hi, hr, hp, ht, hl => by
    obtain ⟨hrest, u, hu, hlu⟩ := of_foldl_settle (hi.settle p) (hr.settle p)
      (fun q hq => by rw [resultOf_settle]; exact hp q (by simp [hq])) ht hl
    obtain ⟨hfirst, hbefore⟩ := hlu.of_settle hi hr (hp p (by simp)) hu
    refine ⟨fun q hq => ?_, hbefore⟩
    rcases List.mem_cons.1 hq with rfl | hq
    · exact hfirst
    · exact hrest q hq

/-! ## Tables with a batch put in -/

/--
`mid` is the table with the batch in it, and nobody has written the results of the batch into slots
yet.
-/
structure Takes (table : TaskTable) (batch : List Task) (mid : TaskTable) : Prop where
  indexed : mid.Indexed
  regular : mid.Regular
  mem : ∀ t ∈ batch, mid.get? t.id = some t
  others : ∀ i ∉ batch.map Task.id, (mid.get? i).map Task.supply = (table.get? i).map Task.supply

namespace Takes

theorem arrived {table : TaskTable} (hi : table.Indexed) (hr : table.Regular) {batch : List Task}
    (hb : ∀ t ∈ batch, t.Regular) (hn : (batch.map Task.id).Nodup)
    (hf : ∀ t ∈ batch, table.get? t.id = none) : table.Takes batch (batch.foldl add table) where
  indexed := hi.foldl_add hn hf
  regular i t ht := by
    by_cases hm : i ∈ batch.map Task.id
    · obtain ⟨p, hp, rfl⟩ := List.mem_map.1 hm
      cases (get?_foldl_add_of_mem hn hp).symm.trans ht
      exact hb _ hp
    · rw [get?_foldl_add_of_not_mem hm] at ht
      exact hr ht
  mem t ht := get?_foldl_add_of_mem hn ht
  others i hm := by rw [get?_foldl_add_of_not_mem hm]

theorem put {table : TaskTable} (hi : table.Indexed) (hr : table.Regular) {old t : Task}
    (ht : t.Regular) (hold : table.get? t.id = some old) (ho : t.owner = old.owner)
    (hd : t.dependencies = old.dependencies) : table.Takes [t] (table.put old t) where
  indexed := hi.put hold ho hd
  regular i u hu := by
    rw [get?_put] at hu
    split at hu
    · cases hu
      exact ht
    · exact hr hu
  mem u hu := by
    rw [List.mem_singleton.1 hu]
    exact get?_put_self table old t
  others i hm := by
    rw [get?_put, if_neg fun e => hm (by simp [e])]

theorem exists_of_insertAll {table table' : TaskTable} (hi : table.Indexed) (hr : table.Regular)
    {batch : List Task} (hb : ∀ t ∈ batch, t.Regular)
    (h : table.insertAll batch = (.ok (), table')) :
    ∃ mid, table.Takes batch mid ∧ table' = batch.foldl settle mid := by
  obtain ⟨hn, hf, rfl⟩ := of_insertAll_eq_ok h
  exact ⟨_, arrived hi hr hb hn hf, rfl⟩

theorem exists_of_replace {table table' : TaskTable} (hi : table.Indexed) (hr : table.Regular)
    {t : Task} (ht : t.Regular) (h : table.replace t = (.ok (), table')) :
    ∃ mid, table.Takes [t] mid ∧ table' = [t].foldl settle mid := by
  obtain ⟨old, hold, ho, hd, rfl⟩ := of_replace_eq_ok h
  exact ⟨_, put hi hr ht hold ho hd, rfl⟩

theorem refl {table : TaskTable} (hi : table.Indexed) (hr : table.Regular) : table.Takes [] table :=
  ⟨hi, hr, by simp, fun _ _ => rfl⟩

theorem trans {table mid mid' : TaskTable} (h : table.Takes [] mid) (h' : mid.Takes [] mid') :
    table.Takes [] mid' :=
  ⟨h'.indexed, h'.regular, by simp, fun i hi => (h'.others i hi).trans (h.others i hi)⟩

theorem start {table : TaskTable} (hi : table.Indexed) (hr : table.Regular) {t : Task}
    (ht : table.get? t.id = some t) (hp : t.status = .pending) (now : Instant) :
    table.Takes [] (table.put t (t.start now)) := by
  have h : table.Takes [t.start now] (table.put t (t.start now)) :=
    put hi hr ((hr ht).start now) ht rfl rfl
  refine ⟨h.indexed, h.regular, by simp, fun i _ => ?_⟩
  rw [get?_put]
  split
  · rename_i e
    cases e
    have hid : (t.start now).id = t.id := rfl
    rw [hid, ht]
    simp [Task.supply, Task.start, Task.completedResult, hp]
  · rfl

theorem foldl_requeue {table : TaskTable} (hi : table.Indexed) (hr : table.Regular)
    (ids : List TaskId) : table.Takes [] (ids.foldl requeue table) where
  indexed := hi.foldl_requeue ids
  regular i t ht := by
    rw [get?_foldl_requeue i ids hi] at ht
    obtain ⟨u, hu, rfl⟩ := Option.map_eq_some_iff.1 ht
    split
    · exact (hr hu).requeue
    · exact hr hu
  mem := by simp
  others i _ := by
    rw [get?_foldl_requeue i ids hi, Option.map_map]
    congr 1
    funext t
    simp only [Function.comp]
    split
    · rename_i h
      simp [Task.supply, Task.requeue, Task.completedResult, h.2]
    · rfl

variable {table mid : TaskTable} {batch : List Task} (h : table.Takes batch mid)
include h

theorem resultOf_of_mem {t : Task} (ht : t ∈ batch) : mid.resultOf t.id = t.completedResult := by
  rw [resultOf, h.mem t ht, Option.bind_some]

theorem resultOf_of_not_mem {i : TaskId} (hi : i ∉ batch.map Task.id) :
    mid.resultOf i = table.resultOf i := by
  have hbind : ∀ x : Option Task, x.bind Task.completedResult = (x.map Task.supply).bind fun s =>
      s.2.2 := by
    intro x
    cases x <;> rfl
  rw [resultOf, resultOf, hbind, hbind, h.others i hi]

/--
A slot that lags once the results of the batch are written lagged in the version written, or before.
-/
theorem lags {i s : TaskId} {t : Task} (ht : (batch.foldl settle mid).get? i = some t)
    (hl : (batch.foldl settle mid).Lags t s) :
    (∃ u ∈ batch, u.id = i ∧ table.Lags u s) ∨
    (∀ u ∈ batch, u.id ≠ i ∧ (u.id = s → u.completedResult = none)) ∧
      ∃ u, table.get? i = some u ∧ table.Lags u s := by
  obtain ⟨hnone, v, hv, r, hs, o, ho, hsource, hvalue⟩ :=
    Lags.of_foldl_settle h.indexed h.regular (fun p hp => h.resultOf_of_mem hp) ht hl
  have hold : s ∉ batch.map Task.id := by
    -- what the batch brings is written to every slot for it
    intro hm
    obtain ⟨p, hp, rfl⟩ := List.mem_map.1 hm
    rw [h.resultOf_of_mem hp, hnone p hp rfl] at hs
    cases hs
  rw [h.resultOf_of_not_mem hold] at hs
  by_cases hm : i ∈ batch.map Task.id
  · obtain ⟨p, hp, rfl⟩ := List.mem_map.1 hm
    cases (h.mem p hp).symm.trans hv
    exact .inl ⟨v, hp, rfl, r, hs, o, ho, hsource, hvalue⟩
  · have hsupply := h.others i hm
    rw [hv] at hsupply
    obtain ⟨u, hu, e⟩ := Option.map_eq_some_iff.1 hsupply.symm
    simp only [Task.supply, Prod.mk.injEq] at e
    rw [← e.1, ← e.2.1] at ho
    have hothers : ∀ p ∈ batch, p.id ≠ i ∧ (p.id = s → p.completedResult = none) :=
      fun p hp => ⟨fun e => hm (e ▸ List.mem_map_of_mem hp), hnone p hp⟩
    exact .inr ⟨hothers, u, hu, r, hs, o, ho, hsource, hvalue⟩

end Takes

end TaskTable

end Reckoner
