import Reckoner.Evaluation
import Reckoner.Proofs.Task.Bookkeeping

/-!
# Footprints

A batch or a new version is taken whole or not at all. If it is taken, the results that it brings go
into the slots for them, in every task that lists their producer, the new tasks and the producer
itself among them. Nothing else is touched, whatever tasks the table holds.
-/

namespace Reckoner

/-! ## Filling slots -/

def Operand.fill (results : TaskId → Option Float) : Operand → Operand
  | literal value => literal value
  | result source value => result source ((results source).or value)

/-- The results for the dependencies of the task, in the slots for them. -/
def Task.fill (results : TaskId → Option Float) (t : Task) : Task :=
  let listed (d : TaskId) : Option Float := if t.dependsOn d then results d else none
  { t with left := t.left.fill listed, right := t.right.fill listed }

def resultIn (tasks : List Task) (d : TaskId) : Option Float :=
  (tasks.find? (·.id == d)).bind Task.completedResult

theorem Operand.fill_fill (first later : TaskId → Option Float) (o : Operand) :
    (o.fill first).fill later = o.fill fun d => (later d).or (first d) := by
  cases o with
  | literal v => rfl
  | result source v => simp only [fill, Option.or_assoc]

theorem Operand.fill_none (o : Operand) : o.fill (fun _ => none) = o := by cases o <;> rfl

namespace Task

theorem dependsOn_iff {t : Task} {d : TaskId} : t.dependsOn d = true ↔ d ∈ t.dependencies := by
  rw [dependsOn, List.contains_iff_mem]

theorem fill_none (t : Task) : t.fill (fun _ => none) = t := by
  simp only [fill, ite_self, Operand.fill_none]

theorem fill_fill (first later : TaskId → Option Float) (t : Task) :
    (t.fill first).fill later = t.fill fun d => (later d).or (first d) := by
  have hslot : ∀ o : Operand, (o.fill fun d => if t.dependsOn d then first d else none).fill
      (fun d => if t.dependsOn d then later d else none) =
        o.fill fun d => if t.dependsOn d then (later d).or (first d) else none := by
    intro o
    rw [Operand.fill_fill]
    congr 1
    funext d
    split <;> rfl
  exact congrArg₂ (fun left right => { t with left, right }) (hslot t.left) (hslot t.right)

end Task

theorem resultIn_cons (p : Task) (rest : List Task) (d : TaskId) :
    resultIn (p :: rest) d = if p.id = d then p.completedResult else resultIn rest d := by
  rw [resultIn, List.find?_cons]
  by_cases h : p.id = d
  · rw [beq_iff_eq.2 h, if_pos h]
    rfl
  · rw [beq_eq_false_iff_ne.2 h, if_neg h]
    rfl

theorem resultIn_eq_none {tasks : List Task} {d : TaskId} (h : d ∉ tasks.map Task.id) :
    resultIn tasks d = none := by
  have hnone : tasks.find? (·.id == d) = none := by
    rw [List.find?_eq_none]
    exact fun t ht e => h (beq_iff_eq.1 e ▸ List.mem_map_of_mem ht)
  rw [resultIn, hnone, Option.bind_none]

/-- The result of the first goes in before those of the others. -/
theorem or_resultIn {p : Task} {rest : List Task} (h : p.id ∉ rest.map Task.id) (d : TaskId) :
    (resultIn rest d).or (resultIn [p] d) = resultIn (p :: rest) d := by
  rw [resultIn_cons p [], resultIn_cons p rest]
  by_cases hd : p.id = d
  · rw [if_pos hd, if_pos hd, resultIn_eq_none (hd ▸ h), Option.none_or]
  · rw [if_neg hd, if_neg hd]
    exact Option.or_none

theorem Operand.resolve_eq_fill {o : Operand} {p : TaskId} {r : Float} {listed : TaskId → Bool}
    (hp : listed p = true) : o.resolve p r =
      o.fill fun d => if listed d then if p = d then some r else none else none := by
  cases o with
  | literal v => rfl
  | result source v =>
    by_cases h : source = p
    · subst h
      simp [resolve, fill, hp]
    · simp [resolve, fill, h, Ne.symm h]

theorem Task.resolve_eq_fill {t p : Task} {r : Float} (hr : p.completedResult = some r)
    (hp : p.id ∈ t.dependencies) : t.resolve p.id r = t.fill (resultIn [p]) := by
  have hone : resultIn [p] = fun d => if p.id = d then some r else none := by
    funext d
    rw [resultIn_cons, hr]
    rfl
  rw [hone]
  simp only [resolve, fill, Operand.resolve_eq_fill (dependsOn_iff.2 hp)]

theorem Task.fill_of_not_mem {t p : Task} (hp : p.id ∉ t.dependencies) :
    t.fill (resultIn [p]) = t := by
  have hlisted : (fun d => if t.dependsOn d then resultIn [p] d else none) = fun _ => none := by
    funext d
    split
    · rename_i hd
      refine resultIn_eq_none ?_
      rintro hm
      rw [List.map_singleton, List.mem_singleton] at hm
      exact hp (hm ▸ dependsOn_iff.1 hd)
    · rfl
  simp only [fill, hlisted, Operand.fill_none]

namespace TaskTable

/-! ## Settling -/

namespace Indexed

variable {table : TaskTable} (h : table.Indexed)
include h

theorem get?_settle_eq_fill (p : Task) (j : TaskId) :
    (table.settle p).get? j = (table.get? j).map (Task.fill (resultIn [p])) := by
  rw [get?_settle]
  refine Option.map_congr fun t ht => ?_
  have hconsumer : j ∈ table.consumersOf p.id ↔ p.id ∈ t.dependencies := by
    rw [h.mem_consumersOf]
    exact ⟨fun ⟨u, hu, hd⟩ => Option.some.inj (hu.symm.trans ht) ▸ hd, fun hd => ⟨t, ht, hd⟩⟩
  cases hr : p.completedResult with
  | none =>
    have hnone : resultIn [p] = fun _ => none := by
      funext d
      rw [resultIn_cons, hr]
      exact ite_self _
    rw [hnone, Task.fill_none]
  | some r =>
    dsimp only
    split
    · rename_i hj
      exact Task.resolve_eq_fill hr (hconsumer.1 hj)
    · rename_i hj
      exact (Task.fill_of_not_mem (mt hconsumer.2 hj)).symm

theorem get?_foldl_settle_eq_fill {batch : List Task} (hn : (batch.map Task.id).Nodup)
    (j : TaskId) :
    (batch.foldl TaskTable.settle table).get? j =
      (table.get? j).map (Task.fill (resultIn batch)) := by
  induction batch generalizing table with
  | nil =>
    have hnone : resultIn [] = fun _ => none := rfl
    rw [List.foldl_nil, hnone, funext Task.fill_none]
    exact Option.map_id'.symm
  | cons p rest ih =>
    rw [List.map_cons, List.nodup_cons] at hn
    rw [List.foldl_cons, ih (h.settle p) hn.2, h.get?_settle_eq_fill, Option.map_map]
    congr 1
    funext t
    rw [Function.comp, Task.fill_fill]
    congr 1
    funext d
    exact or_resultIn hn.1 d

end Indexed

/-! ## Arrivals -/

theorem get?_foldl_add_eq_or {batch : List Task} {table : TaskTable}
    (hn : (batch.map Task.id).Nodup) (i : TaskId) :
    (batch.foldl add table).get? i = (batch.find? (·.id == i)).or (table.get? i) := by
  by_cases hi : i ∈ batch.map Task.id
  · obtain ⟨t, ht, rfl⟩ := List.mem_map.1 hi
    rw [get?_foldl_add_of_mem hn ht, find?_of_nodup hn ht, Option.some_or]
  · have hnone : batch.find? (·.id == i) = none := by
      rw [List.find?_eq_none]
      exact fun t ht e => hi (beq_iff_eq.1 e ▸ List.mem_map_of_mem ht)
    rw [get?_foldl_add_of_not_mem hi, hnone, Option.none_or]

theorem get?_arrived_eq_fill {table : TaskTable} (h : table.Indexed) {batch : List Task}
    (hn : (batch.map Task.id).Nodup) (hf : ∀ t ∈ batch, table.get? t.id = none) (i : TaskId) :
    (table.arrived batch).get? i =
      ((batch.find? (·.id == i)).or (table.get? i)).map (Task.fill (resultIn batch)) := by
  rw [arrived, (h.foldl_add hn hf).get?_foldl_settle_eq_fill hn, get?_foldl_add_eq_or hn]

/-! ## New versions -/

theorem get?_replaced_eq_fill {table : TaskTable} (h : table.Indexed) {old t : Task}
    (hold : table.get? t.id = some old) (ho : t.owner = old.owner)
    (hd : t.dependencies = old.dependencies) (i : TaskId) : ((table.put old t).settle t).get? i =
      (if t.id = i then some t else table.get? i).map (Task.fill (resultIn [t])) := by
  rw [(h.put hold ho hd).get?_settle_eq_fill, get?_put]

/-! ## Both -/

/-- A change that is refused under a condition, and otherwise has an effect. -/
theorem refused_iff {table : TaskTable} {change : Except Fault Unit × TaskTable} {refused : Prop}
    {effect : TaskTable → Prop}
    (h : refused ∧ (∃ fault, change = (.error fault, table)) ∨
      ¬ refused ∧ ∃ table', change = (.ok (), table') ∧ effect table') :
    ((∃ fault, change.1 = .error fault) ↔ refused) ∧
      (∀ fault table', change = (.error fault, table') → table' = table) ∧
      ∀ table', change = (.ok (), table') → effect table' := by
  rcases h with ⟨hr, fault, rfl⟩ | ⟨hr, table', rfl, he⟩
  · exact ⟨iff_of_true ⟨fault, rfl⟩ hr, fun _ _ h => (congrArg Prod.snd h).symm, nofun⟩
  · refine ⟨iff_of_false nofun hr, nofun, fun _ h => ?_⟩
    cases h
    exact he

/--
Whatever a table has gone through, it refuses a batch exactly if the batch has a task twice or one
that is stored, and a task exactly if it is not stored with that owner and those dependencies; then
the table stays as it is. Otherwise it holds the batch, or the new version, beside what it held,
with the results that they bring in the slots of the tasks that list their producers, and no other
task or slot is touched.
-/
theorem changed_exactly (changes : List Change) :
    let table := empty.changeAll changes
    (∀ batch,
      ((∃ fault, (table.insertAll batch).1 = .error fault) ↔
        ¬ (batch.map Task.id).Nodup ∨ ∃ t ∈ batch, ∃ u, table.get? t.id = some u) ∧
      (∀ fault table', table.insertAll batch = (.error fault, table') → table' = table) ∧
      ∀ table', table.insertAll batch = (.ok (), table') → ∀ i, table'.get? i =
        ((batch.find? (·.id == i)).or (table.get? i)).map (Task.fill (resultIn batch))) ∧
    ∀ t : Task,
      ((∃ fault, (table.replace t).1 = .error fault) ↔ table.get? t.id = none ∨
        ∃ old, table.get? t.id = some old ∧
          (old.owner ≠ t.owner ∨ old.dependencies ≠ t.dependencies)) ∧
      (∀ fault table', table.replace t = (.error fault, table') → table' = table) ∧
      ∀ table', table.replace t = (.ok (), table') → ∀ i, table'.get? i =
        (if t.id = i then some t else table.get? i).map (Task.fill (resultIn [t])) := by
  intro table
  have h : table.Indexed := (tracks_changeAll .empty changes).indexed
  refine ⟨fun batch => refused_iff ?_, fun t => refused_iff ?_⟩
  · rcases table.insertAll_cases batch with hrefused | ⟨hc, hn, hf, he⟩
    · exact .inl hrefused
    · exact .inr ⟨hc, _, he, get?_arrived_eq_fill h hn hf⟩
  · rcases table.replace_cases t with hrefused | ⟨hr, old, hold, ho, hd, he⟩
    · exact .inl hrefused
    · exact .inr ⟨hr, _, he, get?_replaced_eq_fill h hold ho hd⟩

/--
A sum waits for a number that comes later, and another one for itself. Both get what they wait for.
-/
theorem changed_exactly_of_waiting_sums :
    let one := Task.literal (Id.ofNat 9) 1.0 (Evaluation.stamp 1)
    let late := Task.literal (Id.ofNat 9) 5.0 (Evaluation.stamp 4)
    let sum (n : Nat) (d : TaskId) : Task :=
      { Task.composite (Id.ofNat 9) .addition one one 0 (Evaluation.stamp n) with
        right := .result d none
        dependencies := [one.id, d] }
    let changes : List Change := [.insertAll [one, sum 2 late.id, sum 3 (Id.ofNat 3)]]
    let loop := (sum 3 (Id.ofNat 3)).complete 7.0 (Evaluation.clock 5)
    let table := empty.changeAll changes
    (∃ table', table.insertAll [late] = (.ok (), table') ∧
      table'.get? (Id.ofNat 2) = some { sum 2 late.id with right := .result late.id (some 5.0) }) ∧
    (∃ table', table.replace loop = (.ok (), table') ∧
      table'.get? (Id.ofNat 3) = some { loop with right := .result loop.id (some 7.0) }) ∧
    (∃ fault, (table.insertAll [late, one]).1 = .error fault) ∧
    ∃ fault, (table.replace { loop with dependencies := [] }).1 = .error fault := by
  intro one late sum changes loop table
  obtain ⟨hinsert, hreplace⟩ := changed_exactly changes
  have hone : (table.get? one.id).isSome = true := by decide
  have hloop : table.get? loop.id = some (sum 3 (Id.ofNat 3)) := by decide
  have hsum : table.get? (Id.ofNat 2) = some (sum 2 late.id) := by decide
  obtain ⟨u, hu⟩ := Option.isSome_iff_exists.1 hone
  have hstored : table.insertAll [late] = (.ok (), (table.insertAll [late]).2) :=
    Prod.ext (by decide) rfl
  have hreplaced : table.replace loop = (.ok (), (table.replace loop).2) := Prod.ext (by decide) rfl
  refine ⟨⟨_, hstored, ?_⟩, ⟨_, hreplaced, ?_⟩, ?_, ?_⟩
  · rw [(hinsert [late]).2.2 _ hstored, hsum]
    decide
  · rw [(hreplace loop).2.2 _ hreplaced]
    decide
  · exact (hinsert [late, one]).1.2 (.inr ⟨one, by simp, u, hu⟩)
  · exact (hreplace { loop with dependencies := [] }).1.2 (.inr ⟨_, hloop, .inr (by decide)⟩)

end TaskTable

end Reckoner
