import Reckoner.Proofs.Task.Plan
import Mathlib.Data.List.Forall2

/-!
# What a task works out

A task of a table works out a formula: its literal, or its operation on what its two dependencies
work out. This rests on blueprints alone, so it outlives every change of the table; and each task of
a plan works out its own part of the formula.
-/

namespace Reckoner

namespace Formula

def parts : Formula → List Formula
  | number v => [number v]
  | binary op left right => left.parts ++ right.parts ++ [binary op left right]

theorem apply_eq_error {op : Operation} {a b : Float} {e : Fault} (h : op.apply a b = .error e) :
    e = .divisionByZero := by
  cases op with
  | division =>
    simp only [Operation.apply] at h
    split at h <;> cases h
    rfl
  | _ => cases h

theorem eval_binary (op : Operator) (left right : Formula) : (binary op left right).eval =
    left.eval.bind fun a => right.eval.bind fun b => op.operation.apply a b := rfl

theorem eval_eq_error {f : Formula} {e : Fault} (h : f.eval = .error e) : e = .divisionByZero := by
  induction f with
  | number v => cases h
  | binary op left right ihl ihr =>
    rw [eval_binary] at h
    cases hl : left.eval with
    | error e' => rw [hl] at h; cases h; exact ihl hl
    | ok a =>
      cases hr : right.eval with
      | error e' => rw [hl, hr] at h; cases h; exact ihr hr
      | ok b => rw [hl, hr] at h; exact apply_eq_error h

/-- What holds of a part and goes from each operand to its operator holds of the whole. -/
theorem parts_induction {g : Formula} {P : Formula → Prop} (self : P g)
    (left : ∀ op l r, P l → P (.binary op l r)) (right : ∀ op l r, P r → P (.binary op l r))
    {f : Formula} (h : g ∈ f.parts) : P f := by
  induction f with
  | number v =>
    cases List.mem_singleton.1 h
    exact self
  | binary op l r ihl ihr =>
    simp only [parts, List.mem_append, List.mem_singleton] at h
    rcases h with (h | h) | rfl
    · exact left op l r (ihl h)
    · exact right op l r (ihr h)
    · exact self

/-- A division by zero anywhere in a formula leaves it without a value. -/
theorem eval_of_mem_parts {f g : Formula} (hg : g ∈ f.parts) (h : g.eval = .error .divisionByZero) :
    f.eval = .error .divisionByZero := by
  refine parts_induction (P := fun f => f.eval = .error .divisionByZero) h (fun op l r hl => ?_)
    (fun op l r hr => ?_) hg
  · rw [eval_binary, hl]
    rfl
  · rw [eval_binary]
    cases hl : l.eval with
    | error e => rw [eval_eq_error hl]; rfl
    | ok a => rw [hr]; rfl

end Formula

namespace TaskTable

/-! ## Kept blueprints -/

def Keeps (a b : TaskTable) : Prop :=
  ∀ ⦃i t⦄, a.get? i = some t → ∃ u, b.get? i = some u ∧ u.blueprint = t.blueprint

theorem Keeps.refl (a : TaskTable) : a.Keeps a := fun _ t h => ⟨t, h, rfl⟩

theorem Keeps.trans {a b c : TaskTable} (h : a.Keeps b) (h' : b.Keeps c) : a.Keeps c := by
  intro i t ht
  obtain ⟨u, hu, e⟩ := h ht
  obtain ⟨v, hv, e'⟩ := h' hu
  exact ⟨v, hv, e'.trans e⟩

theorem keeps_put {table : TaskTable} {old t : Task} (hold : table.get? t.id = some old)
    (hb : t.blueprint = old.blueprint) : table.Keeps (table.put old t) := by
  intro i u hu
  by_cases e : t.id = i
  · subst e
    rw [hold] at hu
    cases hu
    exact ⟨t, get?_put_self .., hb⟩
  · exact ⟨u, by rw [get?_put, if_neg e, hu], rfl⟩

theorem keeps_of_standing {a b : TaskTable}
    (h : ∀ i, (b.get? i).map Task.standing = (a.get? i).map Task.standing) : a.Keeps b := by
  intro i t ht
  have hi := h i
  rw [ht] at hi
  obtain ⟨u, hu, e⟩ := Option.map_eq_some_iff.1 hi
  exact ⟨u, hu, Task.blueprint_eq_of_standing_eq e⟩

theorem keeps_settle (table : TaskTable) (p : Task) : table.Keeps (table.settle p) :=
  keeps_of_standing (standing_settle table p)

/-! ## Working out -/

inductive WorksOut (table : TaskTable) (owner : ExpressionId) : TaskId → Formula → Prop
  | number {id t v} : table.get? id = some t → t.owner = owner → t.operation = .value →
      t.left = .literal v → WorksOut table owner id (.number v)
  | binary {id t l r left right} (op : Operator) : table.get? id = some t → t.owner = owner →
      t.operation = op.operation → t.left.source? = some l → t.right.source? = some r →
      t.dependencies = [l, r] → WorksOut table owner l left → WorksOut table owner r right →
      WorksOut table owner id (.binary op left right)

namespace WorksOut

variable {table : TaskTable} {owner : ExpressionId}

theorem mono {table' : TaskTable} (hk : table.Keeps table') {id : TaskId} {f : Formula}
    (h : table.WorksOut owner id f) : table'.WorksOut owner id f := by
  induction h with
  | number ht ho hop hl =>
    obtain ⟨u, hu, hb⟩ := hk ht
    obtain ⟨-, ho', hop', -, hl', -⟩ := Task.fields_of_blueprint hb
    rw [hl] at hl'
    exact .number hu (ho'.trans ho) (hop'.trans hop) (Operand.eq_literal_of_blank hl')
  | binary op ht ho hop hl hr hd _ _ ihl ihr =>
    obtain ⟨u, hu, hb⟩ := hk ht
    obtain ⟨-, ho', hop', hd', -, -⟩ := Task.fields_of_blueprint hb
    obtain ⟨hl', hr'⟩ := Task.sources_of_blueprint hb
    exact .binary op hu (ho'.trans ho) (hop'.trans hop) (hl'.trans hl) (hr'.trans hr)
      (hd'.trans hd) ihl ihr

theorem exists_get? {id : TaskId} {f : Formula} (h : table.WorksOut owner id f) :
    ∃ t, table.get? id = some t ∧ t.owner = owner := by
  cases h with
  | number ht ho => exact ⟨_, ht, ho⟩
  | binary _ ht ho => exact ⟨_, ht, ho⟩

theorem unique {owner' : ExpressionId} {id : TaskId} {f g : Formula}
    (hf : table.WorksOut owner id f) (hg : table.WorksOut owner' id g) : f = g := by
  -- both derivations read the same stored task, so they end with the same rule
  induction hf generalizing g with
  | number ht _ hop hl =>
    cases hg with
    | number ht' _ _ hl' =>
      cases ht.symm.trans ht'
      cases hl.symm.trans hl'
      rfl
    | binary op ht' _ hop' =>
      cases ht.symm.trans ht'
      exact absurd (hop'.symm.trans hop) op.operation_ne_value
  | binary op ht _ hop hl hr hd _ _ ihl ihr =>
    cases hg with
    | number ht' _ hop' _ =>
      cases ht.symm.trans ht'
      exact absurd (hop.symm.trans hop') op.operation_ne_value
    | binary op' ht' _ hop' hl' hr' hd' hwl hwr =>
      cases ht.symm.trans ht'
      cases hl.symm.trans hl'
      cases hr.symm.trans hr'
      rw [Operator.operation_injective (hop.symm.trans hop'), ihl hwl, ihr hwr]

end WorksOut

/-- The tasks of a plan work out the parts of its formula, one each and in one order. -/
theorem worksOut_plan {table : TaskTable} {times : OperationTimes} {owner : ExpressionId}
    {stamps : Nat → Stamp} (f : Formula) : ∀ k,
    (∀ t ∈ (Plan.ofFormula times owner stamps k f).tasks,
      ∃ u, table.get? t.id = some u ∧ u.blueprint = t.blueprint) →
    table.WorksOut owner (Plan.ofFormula times owner stamps k f).root.id f ∧
      List.Forall₂ (table.WorksOut owner)
        ((Plan.ofFormula times owner stamps k f).tasks.map Task.id) f.parts := by
  induction f with
  | number v =>
    intro k h
    obtain ⟨u, hu, hb⟩ := h _ (Plan.root_mem_tasks _)
    obtain ⟨-, ho, hop, -, hl, -⟩ := Task.fields_of_blueprint hb
    have hw : table.WorksOut owner ⟨(stamps k).uuid⟩ (.number v) :=
      .number hu ho hop (Operand.eq_literal_of_blank hl)
    exact ⟨hw, .cons hw .nil⟩
  | binary op left right ihl ihr =>
    intro k h
    simp only [Plan.tasks_binary, List.mem_append, List.mem_singleton] at h ⊢
    obtain ⟨hwl, hl⟩ := ihl k fun t ht => h t (.inl (.inl ht))
    obtain ⟨hwr, hr⟩ := ihr (k + left.size) fun t ht => h t (.inl (.inr ht))
    obtain ⟨u, hu, hb⟩ := h _ (.inr rfl)
    obtain ⟨-, ho, hop, hd, -, -⟩ := Task.fields_of_blueprint hb
    obtain ⟨hsl, hsr⟩ := Task.sources_of_blueprint hb
    have hw := WorksOut.binary op hu ho hop hsl hsr hd hwl hwr
    refine ⟨hw, ?_⟩
    rw [List.map_append, List.map_append]
    exact List.rel_append (List.rel_append hl hr) (.cons hw .nil)

end TaskTable

end Reckoner
