import Reckoner.Proofs.Decimal.Layout
import Reckoner.Proofs.Decimal.Rounding

/-!
# Shortest decimals are in the cell

A point that is found on a grid is a number in the cell. With seventeen digits the grid is finer
than the cell, so a point is found, and zeros at the end of its digits say nothing.
-/

namespace Reckoner.Decimal

open Binary64

/-! ## Points of the grid -/

theorem zpow_mul_pow_toNat {b : ℚ} (hb : b ≠ 0) (k : Int) :
    b ^ k * b ^ (-k).toNat = b ^ k.toNat := by
  have hk : k + ((-k).toNat : Int) = (k.toNat : Int) := by omega
  rw [← zpow_natCast, ← zpow_natCast, ← zpow_add₀ hb, hk]

namespace Cell

variable {cell : Cell} {exponent : Int}

theorem grid_eq : (2 : ℚ) ^ cell.scale * cell.gridDen exponent =
    10 ^ exponent * cell.gridNum exponent := by
  have h2 : (2 : ℚ) ^ cell.scale * 2 ^ (-cell.scale).toNat = 2 ^ cell.scale.toNat :=
    zpow_mul_pow_toNat two_ne_zero _
  have h10 : (10 : ℚ) ^ exponent * 10 ^ (-exponent).toNat = 10 ^ exponent.toNat :=
    zpow_mul_pow_toNat (by norm_num) _
  unfold gridDen gridNum
  simp only [Nat.pow_eq]
  push_cast
  rw [← h2, ← h10]
  ring

/-- The places on the grid, and its points, have a common unit. -/
theorem exists_unit (cell : Cell) (exponent : Int) : ∃ unit : ℚ, 0 < unit ∧
    (∀ x : Nat, (x : ℚ) * 2 ^ cell.scale = (x * cell.gridNum exponent : Nat) * unit) ∧
    ∀ n : Nat, (n : ℚ) * 10 ^ exponent = (n * cell.gridDen exponent : Nat) * unit := by
  have hden : (0 : ℚ) < cell.gridDen exponent := by exact_mod_cast gridDen_pos
  refine ⟨10 ^ exponent / cell.gridDen exponent, div_pos (zpow_pos (by norm_num) _) hden, fun x =>
    ?_, fun n => ?_⟩
  · rw [Nat.cast_mul, mul_assoc, mul_div_assoc', eq_comm, mul_comm (cell.gridNum exponent : ℚ),
      ← grid_eq,
      mul_div_cancel_right₀ _ hden.ne']
  · rw [Nat.cast_mul, mul_assoc, mul_div_cancel₀ _ hden.ne']

theorem contains_iff {n : Nat} : cell.Contains (n * 10 ^ exponent) ↔
    cell.lower * cell.gridNum exponent ≤ n * cell.gridDen exponent ∧
    n * cell.gridDen exponent ≤ cell.upper * cell.gridNum exponent ∧
    (cell.closed = false → cell.lower * cell.gridNum exponent < n * cell.gridDen exponent ∧
      n * cell.gridDen exponent < cell.upper * cell.gridNum exponent) := by
  obtain ⟨unit, hunit, hplace, hpoint⟩ := exists_unit cell exponent
  unfold Contains
  rw [hplace, hplace, hpoint]
  simp only [mul_le_mul_iff_left₀ hunit, mul_lt_mul_iff_left₀ hunit, Nat.cast_le, Nat.cast_lt]

theorem below_le (cell : Cell) (exponent : Int) :
    cell.below exponent * cell.gridDen exponent ≤ cell.centre * cell.gridNum exponent :=
    Nat.div_mul_le_self _ _

theorem lt_above (cell : Cell) (exponent : Int) :
    cell.centre * cell.gridNum exponent < (cell.below exponent + 1) * cell.gridDen exponent :=
  Nat.lt_mul_of_div_lt (Nat.lt_succ_self _) gridDen_pos

theorem contains_of_onGrid (hlow : cell.lower < cell.centre) (hup : cell.centre < cell.upper)
    {tie : Tie} {n : Nat} (h : cell.onGrid tie exponent = some n) :
    cell.Contains (n * 10 ^ exponent) := by
  rw [contains_iff]
  have hbelow := below_le cell exponent
  have habove := lt_above cell exponent
  have hlow : cell.lower * cell.gridNum exponent < cell.centre * cell.gridNum exponent :=
    Nat.mul_lt_mul_of_pos_right hlow gridNum_pos
  have hup : cell.centre * cell.gridNum exponent < cell.upper * cell.gridNum exponent :=
    Nat.mul_lt_mul_of_pos_right hup gridNum_pos
  rcases onGrid_cases cell tie exponent with ⟨e, hl⟩ | ⟨e, hu⟩ | ⟨e, -⟩
  · cases h.symm.trans e
    refine ⟨?_, by omega, fun hopen => ?_⟩
    · split at hl <;> omega
    · rw [hopen, if_neg (by simp)] at hl
      omega
  · cases h.symm.trans e
    refine ⟨by omega, ?_, fun hopen => ?_⟩
    · split at hu <;> omega
    · rw [hopen, if_neg (by simp)] at hu
      omega
  · rw [e] at h
    cases h

/-- A grid that is finer than the cell has a point in it. -/
theorem onGrid_ne_none (h : cell.gridDen exponent <
    (cell.upper - cell.lower) * cell.gridNum exponent) (tie : Tie) :
    cell.onGrid tie exponent ≠ none := by
  intro hn
  rw [Nat.sub_mul] at h
  rcases onGrid_cases cell tie exponent with ⟨e, -⟩ | ⟨e, -⟩ | ⟨-, hl, hu⟩
  · rw [e] at hn
    cases hn
  · rw [e] at hn
    cases hn
  · rw [Nat.add_mul, Nat.one_mul] at hu
    cases hc : cell.closed with
    | true =>
      rw [if_pos hc] at hl hu
      omega
    | false =>
      rw [if_neg (by simp [hc])] at hl hu
      omega

end Cell

/-! ## The shortest decimal -/

theorem lt_pow_width (n : Nat) : n < 10 ^ width n :=
  (Nat.length_toDigits_le_iff (by decide) Nat.length_toDigits_pos).1 (Nat.le_refl _)

theorem pow_width_le {n : Nat} (h : n ≠ 0) : 10 ^ (width n - 1) ≤ n := by
  by_contra hlt
  have hpos : 0 < width n := Nat.length_toDigits_pos
  by_cases hone : width n = 1
  · rw [hone] at hlt
    omega
  · have hle : width n ≤ width n - 1 :=
      (Nat.length_toDigits_le_iff (by decide) (by omega)).2 (by omega)
    omega

theorem magnitude_le {significand : Nat} (h : 0 < significand) (exponent : Int) :
    (10 : ℚ) ^ magnitude significand exponent ≤ significand * 2 ^ exponent := by
  have hvalue : (significand : ℚ) * 2 ^ exponent =
      (significand * 2 ^ exponent.toNat : Nat) / (2 ^ (-exponent).toNat : Nat) := by
    push_cast
    rw [← zpow_mul_pow_toNat two_ne_zero, ← mul_assoc, mul_div_cancel_right₀ _ (by positivity)]
  have hnum : 0 < significand * 2 ^ exponent.toNat := Nat.mul_pos h (Nat.pow_pos (by decide))
  have hden : 0 < 2 ^ (-exponent).toNat := Nat.pow_pos (by decide)
  rw [hvalue]
  unfold magnitude
  simp only [Nat.pow_eq]
  generalize significand * 2 ^ exponent.toNat = num at *
  generalize 2 ^ (-exponent).toNat = den at *
  have hden' : (0 : ℚ) < den := by exact_mod_cast hden
  have hnum' : (0 : ℚ) < num := by exact_mod_cast hnum
  by_cases hle : den ≤ num
  · have hpow := pow_width_le (Nat.div_pos hle hden).ne'
    have hpos : 0 < width (num / den) := Nat.length_toDigits_pos
    have hexponent : (width (num / den) : Int) - 1 = ((width (num / den) - 1 : Nat) : Int) := by
      omega
    have hmul : 10 ^ (width (num / den) - 1) * den ≤ num :=
      le_trans (Nat.mul_le_mul_right _ hpow) (Nat.div_mul_le_self _ _)
    rw [if_pos hle, le_div_iff₀ hden', hexponent, zpow_natCast]
    exact_mod_cast hmul
  · -- the power of ten is the least that makes the number one or more
    have hlt := lt_pow_width ((den + num - 1) / num - 1)
    have hceil : (den + num - 1) / num ≤ 10 ^ width ((den + num - 1) / num - 1) := by omega
    have hmul : den ≤ 10 ^ width ((den + num - 1) / num - 1) * num := by
      have := Nat.lt_mul_of_div_lt (Nat.lt_succ_of_le hceil) hnum
      rw [Nat.succ_mul] at this
      omega
    rw [if_neg hle, zpow_neg, zpow_natCast, inv_le_comm₀ (by positivity) (by positivity), inv_div,
      div_le_iff₀ hnum']
    exact_mod_cast hmul

theorem stripZeros_value : ∀ (fuel : Nat) (d : Decimal),
    ((stripZeros fuel d).digits : ℚ) * 10 ^ (stripZeros fuel d).exponent =
      d.digits * 10 ^ d.exponent
  | 0, d => rfl
  | fuel + 1, d => by
    unfold stripZeros
    split
    · rename_i h
      have hdigits : (d.digits : ℚ) = (d.digits / 10 : Nat) * 10 := by
        exact_mod_cast (Nat.div_mul_cancel (Nat.dvd_of_mod_eq_zero h.2)).symm
      rw [stripZeros_value fuel]
      dsimp only
      rw [zpow_add_one₀ (by norm_num), hdigits]
      ring
    · rfl

/-- Seventeen digits always suffice. -/
theorem onGrid_seventeen {significand : Nat} {exponent : Int} (h : Canonical significand exponent)
    (tie : Tie) :
    (Cell.of significand exponent).onGrid tie (magnitude significand exponent - 16) ≠ none := by
  generalize htop : magnitude significand exponent = top
  have hpos := h.pos
  have hlt := h.lt
  have hfine : 10 ^ 16 * (Cell.of significand exponent).gridDen (top - 16) ≤
      4 * significand * (Cell.of significand exponent).gridNum (top - 16) := by
    obtain ⟨unit, hunit, hplace, hpoint⟩ :=
      Cell.exists_unit (Cell.of significand exponent) (top - 16)
    have hle : ((10 ^ 16 : Nat) : ℚ) * 10 ^ (top - 16) ≤
        (4 * significand : Nat) * 2 ^ (Cell.of significand exponent).scale := by
      calc ((10 ^ 16 : Nat) : ℚ) * 10 ^ (top - 16) = 10 ^ top := by
            rw [zpow_sub₀ (by norm_num)]
            norm_num
            ring
        _ ≤ significand * 2 ^ exponent := htop ▸ magnitude_le hpos exponent
        _ = (4 * significand : Nat) * 2 ^ (exponent - 2) := by
            rw [zpow_sub₀ two_ne_zero]
            push_cast
            ring
    rw [hplace, hpoint, mul_le_mul_iff_left₀ hunit] at hle
    exact_mod_cast hle
  have hwidth : 4 * significand <
      10 ^ 16 * ((Cell.of significand exponent).upper - (Cell.of significand exponent).lower) := by
    unfold Cell.of
    dsimp only
    split
    · rename_i hnarrow
      have hleast := eq_of_isNarrowBelow hnarrow
      omega
    · omega
  refine Cell.onGrid_ne_none (Nat.lt_of_mul_lt_mul_left (a := 10 ^ 16) ?_) tie
  rw [← Nat.mul_assoc]
  exact lt_of_le_of_lt hfine (Nat.mul_lt_mul_of_pos_right hwidth Cell.gridNum_pos)

theorem shortest_contains (tie : Tie) {significand : Nat} {exponent : Int}
    (h : Canonical significand exponent) :
    (Cell.of significand exponent).Contains
      ((shortest tie significand exponent).digits *
        10 ^ (shortest tie significand exponent).exponent) := by
  have hpos := h.pos
  have hlow : (Cell.of significand exponent).lower < (Cell.of significand exponent).centre := by
    unfold Cell.of
    dsimp only
    split <;> omega
  have hup : (Cell.of significand exponent).centre < (Cell.of significand exponent).upper := by
    unfold Cell.of
    dsimp only
    omega
  unfold shortest
  dsimp only
  rw [stripZeros_value]
  generalize hf : List.findSome? _ (List.range 17) = found
  cases found with
  | none =>
    have hnone := List.findSome?_eq_none_iff.1 hf 16 (by decide)
    exact absurd (Option.map_eq_none_iff.1 hnone) (onGrid_seventeen h tie)
  | some d =>
    obtain ⟨places, -, hp⟩ := List.exists_of_findSome?_eq_some hf
    obtain ⟨digits, hg, rfl⟩ := Option.map_eq_some_iff.1 hp
    exact Cell.contains_of_onGrid hlow hup hg

/-! ## Whole numbers -/

theorem le_exponent_stripZeros : ∀ (fuel : Nat)
    (d : Decimal), d.exponent ≤ (stripZeros fuel d).exponent
  | 0, d => le_rfl
  | fuel + 1, d => by
    unfold stripZeros
    split
    · exact le_trans (by simp) (le_exponent_stripZeros fuel ⟨d.digits / 10, d.exponent + 1⟩)
    · exact le_rfl

section
variable {significand : Nat} {exponent : Int} (hc : Canonical significand exponent) {k : Nat}
  (hk : (significand : ℚ) * 2 ^ exponent = k) (hlt : 2 * k < 2 ^ 52)
include hc hk hlt

/--
The digits of a whole number that is not too large have more than one binary place behind the point.
-/
theorem exponent_neg_of_whole : exponent < 0 ∧ significand = k * 2 ^ (-exponent).toNat := by
  have hneg : exponent < 0 := by
    by_contra hge
    obtain ⟨n, rfl⟩ := Int.eq_ofNat_of_zero_le (not_lt.1 hge)
    rw [zpow_natCast] at hk
    have hle : significand ≤ k := by
      have : significand * 2 ^ n = k := by exact_mod_cast hk
      exact this ▸ Nat.le_mul_of_pos_right _ (Nat.pow_pos (by decide))
    have := hc.normal
    omega
  refine ⟨hneg, ?_⟩
  have hpow : (2 : ℚ) ^ exponent * 2 ^ (-exponent).toNat = 1 := by
    rw [zpow_mul_pow_toNat two_ne_zero, Int.toNat_of_nonpos hneg.le, pow_zero]
  have hq : (significand : ℚ) = k * 2 ^ (-exponent).toNat := by rw [← hk, mul_assoc, hpow, mul_one]
  exact_mod_cast hq

theorem magnitude_of_whole : magnitude significand exponent = width k - 1 := by
  obtain ⟨hneg, hs⟩ := exponent_neg_of_whole hc hk hlt
  have hpos := hc.pos
  have hden : 0 < 2 ^ (-exponent).toNat := Nat.pow_pos (by decide)
  have hkpos : 0 < k := by
    refine Nat.pos_of_ne_zero ?_
    rintro rfl
    omega
  unfold magnitude
  simp only [Nat.pow_eq, Int.toNat_of_nonpos hneg.le, pow_zero, mul_one]
  rw [if_pos (hs ▸ Nat.le_mul_of_pos_left _ hkpos)]
  rw [hs, Nat.mul_div_cancel _ hden]

/-- Only the number itself is a whole number in its cell. -/
theorem eq_of_contains {n : Nat} (h : (Cell.of significand exponent).Contains n) : n = k := by
  obtain ⟨hneg, -⟩ := exponent_neg_of_whole hc hk hlt
  obtain ⟨hlow, hup, -, -⟩ := bounds_of_contains hc h
  have h2 : (0 : ℚ) < 2 ^ exponent := zpow_pos (by norm_num) _
  have hhalf : (2 : ℚ) ^ exponent ≤ 2 ^ (-1 : Int) := zpow_le_zpow_right₀ (by norm_num) (by omega)
  rw [le_div_iff₀ h2] at hlow
  rw [div_le_iff₀ h2] at hup
  norm_num at hhalf
  have h1 : (k : ℚ) < n + 1 := by linarith
  have h2 : (n : ℚ) < k + 1 := by linarith
  have h1 : k < n + 1 := by exact_mod_cast h1
  have h2 : n < k + 1 := by exact_mod_cast h2
  omega

theorem onGrid_zero_ne_none (tie : Tie) : (Cell.of significand exponent).onGrid tie 0 ≠ none := by
  obtain ⟨hneg, hs⟩ := exponent_neg_of_whole hc hk hlt
  have hpos := hc.pos
  have hnum : (Cell.of significand exponent).gridNum 0 = 1 := by
    unfold Cell.gridNum Cell.of
    simp only [Nat.pow_eq, Int.toNat_of_nonpos (show exponent - 2 ≤ 0 by omega)]
    rfl
  have hden : (Cell.of significand exponent).gridDen 0 = 2 ^ (-(exponent - 2)).toNat := by
    unfold Cell.gridDen Cell.of
    simp
  have hcentre : (Cell.of significand exponent).centre =
      k * (Cell.of significand exponent).gridDen 0 := by
    rw [hden, show (-(exponent - 2)).toNat = (-exponent).toNat + 2 by omega, pow_add,
      ← mul_assoc, ← hs]
    exact Nat.mul_comm _ _
  have hbelow : (Cell.of significand exponent).below 0 = k := by
    unfold Cell.below
    rw [hnum, mul_one, hcentre, Nat.mul_div_cancel _ Cell.gridDen_pos]
  have hlower : (Cell.of significand exponent).lower < (Cell.of significand exponent).centre := by
    unfold Cell.of
    dsimp only
    split <;> omega
  intro hnone
  rcases Cell.onGrid_cases (Cell.of significand exponent) tie 0 with ⟨e, -⟩ | ⟨e, -⟩ | ⟨-, hl, -⟩
  · rw [hnone] at e
    cases e
  · rw [hnone] at e
    cases e
  · rw [hnum, hbelow, ← hcentre, mul_one] at hl
    split at hl <;> omega

theorem shortest_of_whole (tie : Tie) : 0 ≤ (shortest tie significand exponent).exponent ∧
    (shortest tie significand exponent).digits *
      10 ^ (shortest tie significand exponent).exponent.toNat = k := by
  have hnonneg : 0 ≤ (shortest tie significand exponent).exponent := by
    have hmagnitude := magnitude_of_whole hc hk hlt
    have hwidth : width k ≤ 16 := (Nat.length_toDigits_le_iff (by decide) (by decide)).2 (by omega)
    have hwidth0 : 0 < width k := Nat.length_toDigits_pos
    -- the whole numbers are one of the grids
    have hgrid : (Cell.of significand exponent).onGrid tie
        (magnitude significand exponent - (width k - 1 : Nat)) ≠
          none := by
      rw [hmagnitude, show (width k : Int) - 1 - (width k - 1 : Nat) = 0 by omega]
      exact onGrid_zero_ne_none hc hk hlt tie
    unfold shortest
    dsimp only
    refine le_trans ?_ (le_exponent_stripZeros _ _)
    generalize hf : List.findSome? _ (List.range 17) = found
    cases found with
    | none =>
      have hnone := List.findSome?_eq_none_iff.1 hf (width k - 1) (List.mem_range.2 (by omega))
      exact absurd (Option.map_eq_none_iff.1 hnone) hgrid
    | some d =>
      obtain ⟨before, places, after, hrange, hp, hbefore⟩ := List.findSome?_eq_some_iff.1 hf
      obtain ⟨digits, -, rfl⟩ := Option.map_eq_some_iff.1 hp
      show 0 ≤ magnitude significand exponent - places
      by_contra hlarge
      have hsorted : (before ++ places :: after).Pairwise (· < ·) := hrange ▸ List.pairwise_lt_range
      have hmem : width k - 1 ∈ before ++ places :: after := hrange ▸ List.mem_range.2 (by omega)
      have hbefore := hbefore (width k - 1) <| by
        refine (List.mem_append.1 hmem).resolve_right fun h => ?_
        rcases List.mem_cons.1 h with e | h
        · omega
        · have := List.rel_of_pairwise_cons (List.pairwise_append.1 hsorted).2.1 h
          omega
      exact absurd (Option.map_eq_none_iff.1 hbefore) hgrid
  refine ⟨hnonneg, eq_of_contains hc hk hlt ?_⟩
  have hcontains := shortest_contains tie hc
  rw [← Int.toNat_of_nonneg hnonneg, zpow_natCast] at hcontains
  exact_mod_cast hcontains

end

end Reckoner.Decimal
