import Reckoner.Decimal.Layout

/-!
# Numerals of numbers

Whatever the layout, the numeral of a number has digits on both sides of a point that it shows, and
no zero in front of other digits: the shortest decimal of a number other than zero is not zero.
-/

namespace Reckoner

structure Numeral.Regular (n : Numeral) : Prop where
  whole_ne_nil : n.whole ≠ []
  whole : ∀ c ∈ n.whole, c.isDigit = true
  leading : ∀ cs, n.whole = '0' :: cs → cs = []
  fraction : ∀ c ∈ n.fraction, c.isDigit = true
  exponent : ∀ negative digits, n.exponent = some (negative, digits) →
    digits ≠ [] ∧ ∀ c ∈ digits, c.isDigit = true

/-! ## Digits of natural numbers -/

theorem isDigit_of_mem_toDigits {n : Nat} {c : Char} (h : c ∈ Nat.toDigits 10 n) :
    c.isDigit = true :=
  Nat.isDigit_of_mem_toDigits (by decide) (by decide) h

theorem valueOf_toDigits (n : Nat) : Numeral.valueOf (Nat.toDigits 10 n) = n :=
  Nat.ofDigitChars_ten_toDigits

theorem valueOf_zeros_append (k : Nat) (digits : List Char) :
    Numeral.valueOf (List.replicate k '0' ++ digits) = Numeral.valueOf digits := by
  induction k with
  | zero => rfl
  | succ k ih =>
    rw [← ih]
    rfl

theorem toDigits_ne_zero_cons {n : Nat} (hn : n ≠ 0) (cs : List Char) :
    Nat.toDigits 10 n ≠ '0' :: cs := by
  induction n using Nat.strongRecOn generalizing cs with
  | ind n ih =>
    by_cases h : n < 10
    · rw [Nat.toDigits_of_lt_base h]
      intro e
      have : ∀ m < 10, m ≠ 0 → m.digitChar ≠ '0' := by decide
      exact this n h hn (List.cons.inj e).1
    · rw [Nat.toDigits_of_base_le (by decide) (by omega)]
      have hd : Nat.toDigits 10 (n / 10) ≠ [] := Nat.toDigits_ne_nil
      cases hq : Nat.toDigits 10 (n / 10) with
      | nil => exact absurd hq hd
      | cons d ds =>
        intro e
        rw [List.cons_append, List.cons.injEq] at e
        exact ih (n / 10) (by omega) (by omega) ds (e.1 ▸ hq)

theorem toDigits_eq_zero_cons {n : Nat} {cs : List Char} (h : Nat.toDigits 10 n = '0' :: cs) :
    n = 0 ∧ cs = [] := by
  by_cases hn : n = 0
  · rw [hn, Nat.toDigits_zero] at h
    exact ⟨hn, (List.cons.inj h).2.symm⟩
  · exact absurd h (toDigits_ne_zero_cons hn cs)

/-! ## Shortest decimals -/

namespace Decimal

theorem stripZeros_ne_zero : ∀ (fuel : Nat) {d : Decimal}, d.digits ≠ 0 →
    (stripZeros fuel d).digits ≠ 0
  | 0, _, h => h
  | fuel + 1, d, h => by
    unfold stripZeros
    split
    · exact stripZeros_ne_zero fuel (by dsimp only; omega)
    · exact h

namespace Cell

def gridNum (cell : Cell) (exponent : Int) : Nat :=
  Nat.pow 2 cell.scale.toNat * Nat.pow 10 (-exponent).toNat

def gridDen (cell : Cell) (exponent : Int) : Nat :=
  Nat.pow 2 (-cell.scale).toNat * Nat.pow 10 exponent.toNat

def below (cell : Cell) (exponent : Int) : Nat :=
  cell.centre * cell.gridNum exponent / cell.gridDen exponent

theorem gridNum_pos {cell : Cell} {exponent : Int} : 0 < cell.gridNum exponent :=
  Nat.mul_pos (Nat.pow_pos (by decide)) (Nat.pow_pos (by decide))

theorem gridDen_pos {cell : Cell} {exponent : Int} : 0 < cell.gridDen exponent :=
  Nat.mul_pos (Nat.pow_pos (by decide)) (Nat.pow_pos (by decide))

/-- The point that is found is next to the centre, and in the cell. -/
theorem onGrid_cases (cell : Cell) (tie : Tie) (exponent : Int) :
    let num := cell.gridNum exponent
    let den := cell.gridDen exponent
    let below := cell.below exponent
    let atLeastLower := if cell.closed then cell.lower * num ≤ below * den
      else cell.lower * num < below * den
    let atMostUpper :=
      if cell.closed then (below + 1) * den ≤ cell.upper * num
      else (below + 1) * den < cell.upper * num
    (cell.onGrid tie exponent = some below ∧ atLeastLower) ∨
      (cell.onGrid tie exponent = some (below + 1) ∧ atMostUpper) ∨
      (cell.onGrid tie exponent = none ∧ ¬ atLeastLower ∧ ¬ atMostUpper) := by
  intro num den below atLeastLower atMostUpper
  have h : cell.onGrid tie exponent =
      if atLeastLower then
        if atMostUpper then
          if cell.centre * num - below * den < (below + 1) * den - cell.centre * num then some below
          else if (below + 1) * den - cell.centre * num < cell.centre * num - below * den then
            some (below + 1)
          else if tie = .even ∧ below % 2 = 0 then some below
          else some (below + 1)
        else some below
      else if atMostUpper then some (below + 1)
      else none := by
    cases tie with
    | up => rfl
    | even =>
      unfold onGrid
      dsimp only
      simp only [true_and, apply_ite some]
      rfl
  rw [h]
  by_cases hl : atLeastLower
  · rw [if_pos hl]
    by_cases hu : atMostUpper
    · rw [if_pos hu]
      split
      · exact .inl ⟨rfl, hl⟩
      split
      · exact .inr (.inl ⟨rfl, hu⟩)
      split
      · exact .inl ⟨rfl, hl⟩
      · exact .inr (.inl ⟨rfl, hu⟩)
    · rw [if_neg hu]
      exact .inl ⟨rfl, hl⟩
  · rw [if_neg hl]
    by_cases hu : atMostUpper
    · rw [if_pos hu]
      exact .inr (.inl ⟨rfl, hu⟩)
    · rw [if_neg hu]
      exact .inr (.inr ⟨rfl, hl, hu⟩)

theorem onGrid_ne_zero {cell : Cell} (h : 0 < cell.lower) {tie : Tie} {exponent : Int}
    {digits : Nat} (hd : cell.onGrid tie exponent = some digits) : digits ≠ 0 := by
  have hpos : 0 < cell.lower * cell.gridNum exponent := Nat.mul_pos h gridNum_pos
  rcases onGrid_cases cell tie exponent with ⟨e, hl⟩ | ⟨e, -⟩ | ⟨e, -⟩
  · cases hd.symm.trans e
    intro h0
    rw [h0, Nat.zero_mul] at hl
    split at hl <;> omega
  · cases hd.symm.trans e
    exact Nat.succ_ne_zero _
  · rw [e] at hd
    cases hd

end Cell

theorem shortest_ne_zero (tie : Tie) {significand : Nat} (h : significand ≠ 0) (exponent : Int) :
    (shortest tie significand exponent).digits ≠ 0 := by
  apply stripZeros_ne_zero
  generalize hf : List.findSome? _ (List.range 17) = found
  cases found with
  | none => exact h
  | some d =>
    obtain ⟨places, -, hp⟩ := List.exists_of_findSome?_eq_some hf
    obtain ⟨digits, hg, rfl⟩ := Option.map_eq_some_iff.1 hp
    refine Cell.onGrid_ne_zero ?_ hg
    unfold Cell.of
    dsimp only
    split <;> omega

end Decimal

/-! ## Layouts -/

namespace Layout

/--
No zero comes in front of other digits when the decimal is not a zero that is moved to the left.
-/
theorem split_regular {n : Nat} {exponent : Int} (h : n = 0 → exponent ≤ 0) :
    let (whole, fraction) := split (Nat.toDigits 10 n) exponent
    (whole ≠ [] ∧ (∀ c ∈ whole, c.isDigit = true) ∧ ∀ cs, whole = '0' :: cs → cs = []) ∧
      ∀ c ∈ fraction, c.isDigit = true := by
  have hne : Nat.toDigits 10 n ≠ [] := Nat.toDigits_ne_nil
  have hdigit : ∀ c ∈ Nat.toDigits 10 n, c.isDigit = true := fun c => isDigit_of_mem_toDigits
  have hzeros : ∀ (k : Nat), ∀ c ∈ List.replicate k '0', c.isDigit = true := by
    intro k c hc
    rw [List.eq_of_mem_replicate hc]
    rfl
  have hleading : ∀ cs, Nat.toDigits 10 n = '0' :: cs →
      n = 0 ∧ cs = [] := fun cs => toDigits_eq_zero_cons
  cases hd : Nat.toDigits 10 n with
  | nil => exact absurd hd hne
  | cons d ds =>
    rw [hd] at hdigit hleading
    unfold split
    by_cases he : 0 ≤ exponent
    · rw [if_pos he]
      refine ⟨⟨by simp, fun c hc => ?_, fun cs e => ?_⟩, by simp⟩
      · rcases List.mem_append.1 hc with hc | hc
        · exact hdigit c hc
        · exact hzeros _ c hc
      · rw [List.cons_append, List.cons.injEq] at e
        obtain ⟨rfl, rfl⟩ := e
        obtain ⟨hn, rfl⟩ := hleading ds rfl
        have : exponent = 0 := by
          have := h hn
          omega
        rw [this]
        rfl
    · rw [if_neg he]
      dsimp only
      by_cases hp : (-exponent).toNat < (d :: ds).length
      · -- at least one digit stays in front of the point
        rw [if_pos hp, List.splitAt_eq]
        obtain ⟨k, hk⟩ : ∃ k, (d :: ds).length - (-exponent).toNat = k + 1 :=
          ⟨(d :: ds).length - (-exponent).toNat - 1, by omega⟩
        rw [hk]
        refine ⟨⟨by simp, fun c hc => hdigit c (List.mem_of_mem_take hc), fun cs e => ?_⟩,
          fun c hc => hdigit c (List.mem_of_mem_drop hc)⟩
        rw [List.take_succ_cons, List.cons.injEq] at e
        obtain ⟨rfl, rfl⟩ := e
        rw [(hleading ds rfl).2]
        simp
      · rw [if_neg hp]
        refine ⟨⟨by simp, by simp, fun cs e => (List.cons.inj e).2.symm⟩, fun c hc => ?_⟩
        rcases List.mem_append.1 hc with hc | hc
        · exact hzeros _ c hc
        · exact hdigit c hc

theorem arrange_regular (layout : Layout) (negative : Bool) {decimal : Decimal}
    (h : decimal.digits = 0 → decimal.exponent ≤ 0) :
    (layout.arrange negative decimal).Regular := by
  have hs := split_regular h
  unfold arrange
  dsimp only
  split
  · obtain ⟨⟨hn, hw, hz⟩, hf⟩ := hs
    refine ⟨hn, hw, hz, fun c hc => ?_, by simp⟩
    dsimp only at hc
    split at hc
    · rw [List.mem_singleton.1 hc]
      rfl
    · exact hf c hc
  · refine ⟨?_, fun c hc => isDigit_of_mem_toDigits (List.mem_of_mem_take hc), fun cs e => ?_,
      fun c hc => isDigit_of_mem_toDigits (List.mem_of_mem_drop hc), fun negative digits e => ?_⟩
    · have hne : Nat.toDigits 10 decimal.digits ≠ [] := Nat.toDigits_ne_nil
      simp [hne]
    · have hl := congrArg List.length e
      simp only [List.length_take, List.length_cons] at hl
      exact List.eq_nil_of_length_eq_zero (by omega)
    · simp only [Option.some.injEq, Prod.mk.injEq] at e
      obtain ⟨-, rfl⟩ := e
      exact ⟨Nat.toDigits_ne_nil, fun c => isDigit_of_mem_toDigits⟩

theorem regular_of_numeral? {layout : Layout} {x : Float} {n : Numeral}
    (h : layout.numeral? x = some n) : n.Regular := by
  unfold numeral? at h
  split at h
  · cases h
  · cases h
  · cases h
    exact arrange_regular layout _ fun _ => Int.le_refl 0
  · rename_i hs _
    cases h
    exact arrange_regular layout _ fun hz => absurd hz (Decimal.shortest_ne_zero _ hs _)

end Layout

end Reckoner
