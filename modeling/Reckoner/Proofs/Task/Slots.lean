import Reckoner.Proofs.Task.Index

/-!
# Operand slots

Values are written into slots when a task is completed or arrives, never when its consumer is
handed out. So each change of the table has to keep every slot in agreement with its source: some
results may be due to be written (`Filled due`), and `settle` writes them one by one.
-/

namespace Reckoner.TaskTable

def Fits (table : TaskTable) (due dependencies : List TaskId) (o : Operand) : Prop :=
  ∀ source value, o = .result source value →
    source ∈ dependencies ∧ ∀ r, table.resultOf source = some r → value = some r ∨ source ∈ due

def Filled (due : List TaskId) (table : TaskTable) : Prop :=
  ∀ ⦃i t⦄, table.get? i = some t →
    table.Fits due t.dependencies t.left ∧ table.Fits due t.dependencies t.right

theorem Fits.mono {a b : TaskTable} {due due' dependencies : List TaskId} {o : Operand}
    (h : a.Fits due dependencies o)
    (hr : ∀ i r, b.resultOf i = some r → a.resultOf i = some r ∧ (i ∈ due → i ∈ due') ∨ i ∈ due') :
    b.Fits due' dependencies o := by
  intro source value e
  obtain ⟨hm, hv⟩ := h source value e
  refine ⟨hm, fun r hs => ?_⟩
  rcases hr source r hs with ⟨ha, hd⟩ | hd
  · exact (hv r ha).imp_right hd
  · exact .inr hd

theorem resultOf_put (table : TaskTable) (old t : Task) (i : TaskId) :
    (table.put old t).resultOf i = if t.id = i then t.completedResult else table.resultOf i := by
  simp only [resultOf, get?_put]
  split <;> rfl

theorem resultOf_put_self (table : TaskTable) (old t : Task) :
    (table.put old t).resultOf t.id = t.completedResult := by
  rw [resultOf_put, if_pos rfl]

theorem resultOf_put_eq {table : TaskTable} {old t : Task} (hold : table.get? t.id = some old)
    (hr : t.completedResult = old.completedResult) (i : TaskId) :
    (table.put old t).resultOf i = table.resultOf i := by
  rw [resultOf_put]
  split
  · rename_i e
    subst e
    rw [resultOf, hold, hr]; rfl
  · rfl

/-! ## Writing what is due -/

theorem Fits.settle {table : TaskTable} (hi : table.Indexed) {p t : Task} {due : List TaskId}
    (hp : table.resultOf p.id = p.completedResult) {j : TaskId} (ht : table.get? j = some t)
    {o : Operand} (h : table.Fits (p.id :: due) t.dependencies o) :
    (table.settle p).Fits due t.dependencies (match p.completedResult with
      | none => o
      | some r => if j ∈ table.consumersOf p.id then o.resolve p.id r else o) := by
  intro source value e
  simp only [resultOf_settle]
  cases hc : p.completedResult with
  | none =>
    rw [hc] at e
    obtain ⟨hm, hv⟩ := h source value e
    refine ⟨hm, fun r hs => (hv r hs).imp_right fun hd => ?_⟩
    rcases List.mem_cons.1 hd with rfl | hd
    · rw [hp, hc] at hs; cases hs
    · exact hd
  | some r₀ =>
    simp only [hc] at e
    by_cases hj : j ∈ table.consumersOf p.id
    · rw [if_pos hj] at e
      obtain ⟨u, rfl, rfl⟩ := Operand.resolve_eq_result e
      obtain ⟨hm, hv⟩ := h source u rfl
      refine ⟨hm, fun r hs => ?_⟩
      split
      · rename_i hsource
        rw [hsource, hp, hc] at hs
        exact .inl hs
      · rename_i hsource
        exact (hv r hs).imp_right fun hd => (List.mem_cons.1 hd).resolve_left hsource
    · rw [if_neg hj] at e
      obtain ⟨hm, hv⟩ := h source value e
      -- a task with a slot for the result is among its consumers
      have hsource : source ≠ p.id := fun hs => hj (hi.mem_consumersOf.2 ⟨t, ht, hs ▸ hm⟩)
      exact ⟨hm, fun r hs => (hv r hs).imp_right fun hd =>
        (List.mem_cons.1 hd).resolve_left hsource⟩

theorem Filled.settle {table : TaskTable} (hi : table.Indexed) {p : Task} {due : List TaskId}
    (hp : table.resultOf p.id = p.completedResult) (h : table.Filled (p.id :: due)) :
    (table.settle p).Filled due := by
  intro j t ht
  rw [get?_settle] at ht
  obtain ⟨u, hu, rfl⟩ := Option.map_eq_some_iff.1 ht
  obtain ⟨hl, hr⟩ := h hu
  have hl := hl.settle hi hp hu
  have hr := hr.settle hi hp hu
  split
  · rename_i hc
    rw [hc] at hl hr
    exact ⟨hl, hr⟩
  · rename_i r hc
    rw [hc] at hl hr
    dsimp only at hl hr
    split
    · rename_i hj
      rw [if_pos hj] at hl hr
      exact ⟨hl, hr⟩
    · rename_i hj
      rw [if_neg hj] at hl hr
      exact ⟨hl, hr⟩

theorem Filled.foldl_settle : ∀ {batch : List Task} {table : TaskTable}, table.Indexed →
    (∀ p ∈ batch, table.resultOf p.id = p.completedResult) → table.Filled (batch.map Task.id) →
      (batch.foldl TaskTable.settle table).Filled []
  | [], _, _, _, h => h
  | p :: rest, table, hi, hp, h => by
    rw [List.foldl_cons]
    refine foldl_settle (hi.settle p) (fun q hq => ?_) (h.settle hi (hp p (by simp)))
    rw [resultOf_settle]
    exact hp q (by simp [hq])

theorem Fits.value_eq {table : TaskTable} {dependencies : List TaskId} {o : Operand}
    (h : table.Fits [] dependencies o) {source : TaskId} (hs : o.source? = some source) {r : Float}
    (hr : table.resultOf source = some r) : o.value? = some r := by
  cases o with
  | literal v => cases hs
  | result s v =>
    cases hs
    rcases (h _ v rfl).2 r hr with hv | hv
    · exact hv
    · cases hv

/-! ## What makes results due -/

theorem Filled.put {table : TaskTable} {due : List TaskId} (h : table.Filled due) {old t : Task}
    (hold : table.get? t.id = some old) (hl : t.left = old.left) (hr : t.right = old.right)
    (hd : t.dependencies = old.dependencies) : (table.put old t).Filled (t.id :: due) := by
  have mono : ∀ {dependencies o}, table.Fits due dependencies o →
      (table.put old t).Fits (t.id :: due) dependencies o := by
    intro dependencies o ho
    refine ho.mono fun i r hi => ?_
    by_cases e : t.id = i
    · exact .inr (by simp [e])
    · rw [resultOf_put, if_neg e] at hi
      exact .inl ⟨hi, List.mem_cons_of_mem _⟩
  intro i u hu
  rw [get?_put] at hu
  split at hu
  · cases hu
    rw [hl, hr, hd]
    exact ⟨mono (h hold).1, mono (h hold).2⟩
  · exact ⟨mono (h hu).1, mono (h hu).2⟩

theorem Filled.put_of_eq {table : TaskTable} {due : List TaskId} (h : table.Filled due)
    {old t : Task} (hold : table.get? t.id = some old) (hl : t.left = old.left)
    (hr : t.right = old.right) (hd : t.dependencies = old.dependencies)
    (hc : t.completedResult = old.completedResult) : (table.put old t).Filled due := by
  have mono : ∀ {dependencies o}, table.Fits due dependencies o →
      (table.put old t).Fits due dependencies o := fun ho =>
    ho.mono fun i r hi => .inl ⟨by rwa [resultOf_put_eq hold hc] at hi, id⟩
  intro i u hu
  rw [get?_put] at hu
  split at hu
  · cases hu
    rw [hl, hr, hd]
    exact ⟨mono (h hold).1, mono (h hold).2⟩
  · exact ⟨mono (h hu).1, mono (h hu).2⟩

theorem Filled.foldl_add {table : TaskTable} (h : table.Filled []) {batch : List Task}
    (hn : (batch.map Task.id).Nodup)
    (hs : ∀ t ∈ batch, table.Fits (batch.map Task.id) t.dependencies t.left ∧
      table.Fits (batch.map Task.id) t.dependencies t.right) :
    (batch.foldl add table).Filled (batch.map Task.id) := by
  have mono : ∀ {due dependencies o}, (∀ i ∈ due, i ∈ batch.map Task.id) →
      table.Fits due dependencies o →
      (batch.foldl add table).Fits (batch.map Task.id) dependencies o := by
    intro due dependencies o hdue ho
    refine ho.mono fun i r hi => ?_
    by_cases e : i ∈ batch.map Task.id
    · exact .inr e
    · rw [resultOf, get?_foldl_add_of_not_mem e] at hi
      exact .inl ⟨hi, hdue i⟩
  intro i t ht
  by_cases hi : i ∈ batch.map Task.id
  · obtain ⟨p, hp, rfl⟩ := List.mem_map.1 hi
    rw [get?_foldl_add_of_mem hn hp] at ht
    cases ht
    exact ⟨mono (fun _ => id) (hs _ hp).1, mono (fun _ => id) (hs _ hp).2⟩
  · rw [get?_foldl_add_of_not_mem hi] at ht
    exact ⟨mono (by simp) (h ht).1, mono (by simp) (h ht).2⟩

/-! ## Sound tables -/

def Coherent (table : TaskTable) : Prop := ∀ ⦃i t⦄, table.get? i = some t → t.Coherent

theorem Coherent.put {table : TaskTable} (h : table.Coherent) (old : Task) {t : Task}
    (hc : t.Coherent) : (table.put old t).Coherent := by
  intro i u hu
  rw [get?_put] at hu
  split at hu
  · cases hu; exact hc
  · exact h hu

theorem Coherent.settle {table : TaskTable} (h : table.Coherent) (p : Task) :
    (table.settle p).Coherent := by
  intro i t ht
  obtain ⟨u, hu, rfl | ⟨r, -, rfl⟩⟩ := exists_get?_settle ht
  · exact h hu
  · exact (h hu).resolve _ _

theorem Coherent.requeue {table : TaskTable} (h : table.Coherent) (hi : table.Indexed)
    (i : TaskId) : (table.requeue i).Coherent := by
  rcases hi.requeue_cases i with e | ⟨t, ht, -, hp, e⟩ <;> rw [e]
  · exact h
  · exact h.put t ((h ht).requeue hp)

theorem Coherent.foldl_requeue : ∀ (ids : List TaskId) {table : TaskTable}, table.Coherent →
    table.Indexed →
    (ids.foldl TaskTable.requeue table).Coherent
  | [], _, h, _ => h
  | i :: ids, _, h, hi => foldl_requeue ids (h.requeue hi i) (hi.requeue i)

theorem Coherent.foldl_settle : ∀ (batch : List Task) {table : TaskTable}, table.Coherent →
    (batch.foldl TaskTable.settle table).Coherent
  | [], _, h => h
  | p :: rest, _, h => foldl_settle rest (h.settle p)

theorem Coherent.foldl_add {table : TaskTable} (h : table.Coherent) {batch : List Task}
    (hn : (batch.map Task.id).Nodup) (hc : ∀ t ∈ batch, t.Coherent) :
    (batch.foldl add table).Coherent := by
  intro i t ht
  by_cases hm : i ∈ batch.map Task.id
  · obtain ⟨p, hp, rfl⟩ := List.mem_map.1 hm
    rw [get?_foldl_add_of_mem hn hp] at ht
    cases ht
    exact hc _ hp
  · rw [get?_foldl_add_of_not_mem hm] at ht
    exact h ht

structure Sound (table : TaskTable) : Prop where
  indexed : table.Indexed
  filled : table.Filled []
  coherent : table.Coherent

namespace Sound

theorem empty : TaskTable.empty.Sound where
  indexed := .empty
  filled _ _ h := by simp at h
  coherent _ _ h := by simp at h

variable {table : TaskTable} (h : table.Sound)
include h

theorem put_settle {old t : Task} (hold : table.get? t.id = some old) (hc : t.Coherent)
    (ho : t.owner = old.owner) (hl : t.left = old.left) (hr : t.right = old.right)
    (hd : t.dependencies = old.dependencies) : ((table.put old t).settle t).Sound where
  indexed := (h.indexed.put hold ho hd).settle t
  filled := (h.filled.put hold hl hr hd).settle (h.indexed.put hold ho hd)
    (resultOf_put_self table old t)
  coherent := (h.coherent.put old hc).settle t

theorem start {t : Task} (ht : table.get? t.id = some t) (hp : t.status = .pending)
    (now : Instant) : (table.put t (t.start now)).Sound where
  indexed := h.indexed.put (t := t.start now) ht rfl rfl
  filled := h.filled.put_of_eq (t := t.start now) ht rfl rfl rfl
    (Task.completedResult_eq_of_standing_eq (t.standing_start now hp))
  coherent := h.coherent.put t ((h.coherent ht).start hp now)

theorem requeue (i : TaskId) : (table.requeue i).Sound where
  indexed := h.indexed.requeue i
  filled := by
    rcases h.indexed.requeue_cases i with e | ⟨t, ht, -, hp, e⟩ <;> rw [e]
    · exact h.filled
    · exact h.filled.put_of_eq (t := t.requeue) ht rfl rfl rfl
        (Task.completedResult_eq_of_standing_eq (t.standing_requeue hp))
  coherent := h.coherent.requeue h.indexed i

theorem insertAll {batch : List Task} (hn : (batch.map Task.id).Nodup)
    (hf : ∀ t ∈ batch, table.get? t.id = none)
    (hs : ∀ t ∈ batch, table.Fits (batch.map Task.id) t.dependencies t.left ∧
      table.Fits (batch.map Task.id) t.dependencies t.right)
    (hc : ∀ t ∈ batch, t.Coherent) : (batch.foldl settle (batch.foldl add table)).Sound where
  indexed := (h.indexed.foldl_add hn hf).foldl_settle batch
  filled := by
    refine (h.filled.foldl_add hn hs).foldl_settle (h.indexed.foldl_add hn hf) fun p hp => ?_
    simp only [resultOf, get?_foldl_add_of_mem hn hp, Option.bind_some]
  coherent := (h.coherent.foldl_add hn hc).foldl_settle batch

end Sound

end Reckoner.TaskTable
