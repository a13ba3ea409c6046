import Reckoner.Proofs.Task.Derivation

/-!
# The height of a formula

How many operators lie one above the other. An operator can be worked out when its operands have
values, and that is when no division below it fails.
-/

namespace Reckoner.Formula

def height : Formula → Nat
  | number _ => 0
  | binary _ left right => 1 + max left.height right.height

def properParts : Formula → List Formula
  | number _ => []
  | binary _ left right => left.parts ++ right.parts

def Fails (f : Formula) : Prop :=
  ∃ left right a b, f = .binary .div left right ∧ left.eval = .ok a ∧ right.eval = .ok b ∧
    (b == 0) = true

def Clear (f : Formula) : Prop := ∀ g ∈ f.properParts, ¬ g.Fails

theorem parts_eq (f : Formula) : f.parts = f.properParts ++ [f] := by cases f <;> rfl

theorem length_parts (f : Formula) : f.parts.length = f.size := by
  induction f with
  | number v => rfl
  | binary op left right ihl ihr =>
    simp only [parts, size, List.length_append, List.length_singleton, ihl, ihr]
    omega

theorem mem_parts_self (f : Formula) : f ∈ f.parts := by
  rw [parts_eq]
  exact List.mem_append_right _ (List.mem_singleton_self f)

theorem parts_subset {f g : Formula} (h : g ∈ f.parts) : g.parts ⊆ f.parts := by
  refine parts_induction (P := fun f => g.parts ⊆ f.parts) (List.Subset.refl _)
    (fun op l r hl => ?_) (fun op l r hr => ?_) h
  · exact fun x hx => List.mem_append_left _ (List.mem_append_left _ (hl hx))
  · exact fun x hx => List.mem_append_left _ (List.mem_append_right _ (hr hx))

theorem height_le_of_mem {f g : Formula} (h : g ∈ f.parts) : g.height ≤ f.height := by
  refine parts_induction (P := fun f => g.height ≤ f.height) (Nat.le_refl _) (fun op l r hl => ?_)
    (fun op l r hr => ?_) h
  · simp only [height]
    omega
  · simp only [height]
    omega

theorem binary_eval_isOk_iff {op : Operator} {left right : Formula} :
    (∃ v, (binary op left right).eval = .ok v) ↔
      (∃ a, left.eval = .ok a) ∧ (∃ b, right.eval = .ok b) ∧ ¬ (binary op left right).Fails := by
  rw [eval_binary]
  cases hl : left.eval with
  | error e => simp [Except.bind]
  | ok a =>
    cases hr : right.eval with
    | error e => simp [Except.bind]
    | ok b =>
      have hfails : (binary op left right).Fails ↔ op = .div ∧ (b == 0) = true := by
        constructor
        · rintro ⟨_, _, a', b', e, hl', hr', hb⟩
          cases e
          cases hr.symm.trans hr'
          exact ⟨rfl, hb⟩
        · rintro ⟨rfl, hb⟩
          exact ⟨left, right, a, b, rfl, hl, hr, hb⟩
      have happly : (∃ v, op.operation.apply a b = .ok v) ↔ ¬ (op = .div ∧ (b == 0) = true) := by
        cases op with
        | div => by_cases hb : (b == 0) = true <;> simp [Operator.operation, Operation.apply, hb]
        | _ => simp [Operator.operation, Operation.apply]
      rw [hfails]
      simpa [Except.bind] using happly

/-- A formula has a value if and only if nothing in it fails. -/
theorem eval_isOk_iff (f : Formula) : (∃ v, f.eval = .ok v) ↔ ∀ g ∈ f.parts, ¬ g.Fails := by
  induction f with
  | number v =>
    refine iff_of_true ⟨v, rfl⟩ fun g hg => ?_
    cases List.mem_singleton.1 hg
    rintro ⟨_, _, _, _, e, -⟩
    cases e
  | binary op left right ihl ihr =>
    rw [binary_eval_isOk_iff, ihl, ihr]
    simp only [parts, List.forall_mem_append, List.forall_mem_singleton, and_assoc]

theorem clear_of_eval_eq_ok {f : Formula} {v : Float} (h : f.eval = .ok v) : f.Clear := by
  have hparts := f.eval_isOk_iff.1 ⟨v, h⟩
  rw [parts_eq, List.forall_mem_append] at hparts
  exact hparts.1

theorem clear_binary_iff {op : Operator} {left right : Formula} :
    (binary op left right).Clear ↔ (∃ a, left.eval = .ok a) ∧ ∃ b, right.eval = .ok b := by
  simp only [eval_isOk_iff, Clear, properParts, List.forall_mem_append]

/--
Below a formula that can be worked out, every height is reached by one that can be worked out.
-/
theorem exists_part_of_height {f : Formula} (hc : f.Clear) {n : Nat} (hn : n ≤ f.height) :
    ∃ g ∈ f.parts, g.height = n ∧ g.Clear := by
  induction f with
  | number v => exact ⟨_, mem_parts_self _, (Nat.le_zero.1 hn).symm, hc⟩
  | binary op left right ihl ihr =>
    have hleft : left.Clear := fun g hg => hc g (List.mem_append_left _ (by simp [parts_eq, hg]))
    have hright : right.Clear := fun g hg => hc g (List.mem_append_right _ (by simp [parts_eq, hg]))
    have hsub {g : Formula} (h : g ∈ left.parts ∨ g ∈ right.parts) :
        g ∈ (binary op left right).parts := by
      simp only [parts, List.mem_append]
      exact .inl h
    rcases Nat.lt_or_ge n (binary op left right).height with hlt | hge
    · simp only [height] at hlt
      rcases (by omega : n ≤ left.height ∨ n ≤ right.height) with hle | hle
      · obtain ⟨g, hg, hheight, hclear⟩ := ihl hleft hle
        exact ⟨g, hsub (.inl hg), hheight, hclear⟩
      · obtain ⟨g, hg, hheight, hclear⟩ := ihr hright hle
        exact ⟨g, hsub (.inr hg), hheight, hclear⟩
    · exact ⟨_, mem_parts_self _, Nat.le_antisymm hge hn, hc⟩

end Reckoner.Formula
