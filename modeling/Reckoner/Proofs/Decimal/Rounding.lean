import Reckoner.Decimal.Shortest
import Mathlib

/-!
# Rounding to binary64

The numbers that round to a binary64 number are those of its cell. A mantissa is shifted until
fifty-three bits are left. What is shifted out is kept as a round bit and a sticky bit, and these
two say on which side of a half it was.
-/

namespace Reckoner

def Decimal.Cell.Contains (cell : Decimal.Cell) (x : ℚ) : Prop :=
  cell.lower * 2 ^ cell.scale ≤ x ∧ x ≤ cell.upper * 2 ^ cell.scale ∧
    (cell.closed = false → cell.lower * 2 ^ cell.scale < x ∧ x < cell.upper * 2 ^ cell.scale)

namespace Binary64

open Float.Model Float.Model.UnpackedFloat Decimal

structure Canonical (significand : Nat) (exponent : Int) : Prop where
  pos : 0 < significand
  lt : significand < 2 ^ 53
  le : -1074 ≤ exponent
  normal : 2 ^ 52 ≤ significand ∨ exponent = -1074

/-! ## Mantissas with a round bit and a sticky bit -/

def halves (em : ExtendedMantissa) : ℚ := em.mantissa + if em.roundBit then 1 / 2 else 0

def Approximates (em : ExtendedMantissa) (x : ℚ) : Prop :=
  if em.stickyBit then halves em < x ∧ x < halves em + 1 / 2 else x = halves em

namespace Approximates

variable {em : ExtendedMantissa} {x : ℚ} (h : Approximates em x)
include h

theorem bounds : em.mantissa ≤ x ∧ x < em.mantissa + 1 := by
  obtain ⟨m, r, s⟩ := em
  unfold Approximates halves at h
  dsimp only at h ⊢
  cases r <;> cases s <;> simp only [if_true, Bool.false_eq_true, if_false, add_zero] at h <;>
    constructor <;> linarith

theorem shiftRightOne : Approximates em.shiftRightOne (x / 2) := by
  obtain ⟨m, r, s⟩ := em
  -- the bit that is shifted out becomes the round bit
  have hhalves : halves (ExtendedMantissa.shiftRightOne ⟨m, r, s⟩) = (m : ℚ) / 2 := by
    have hm : (m : ℚ) = 2 * (m / 2 : Nat) + (m % 2 : Nat) := by
      exact_mod_cast (Nat.div_add_mod m 2).symm
    unfold halves ExtendedMantissa.shiftRightOne
    dsimp only
    rcases Nat.mod_two_eq_zero_or_one m with hb | hb
    · rw [hb, Nat.cast_zero] at hm
      simp only [hb, bne_self_eq_false, Bool.false_eq_true, if_false]
      linarith
    · rw [hb, Nat.cast_one] at hm
      simp only [hb, show ((1 : Nat) != 0) = true from rfl, if_true]
      linarith
  unfold Approximates at h ⊢
  rw [hhalves]
  unfold halves at h
  dsimp only at *
  show if r || s then _ else _
  cases r <;> cases s <;>
    simp only [Bool.false_eq_true, if_false, if_true, Bool.or_true, Bool.or_false, add_zero] at h ⊢
  · linarith
  all_goals constructor <;> linarith

theorem shiftRight (k : Nat) : Approximates (em >>> k) (x / 2 ^ k) := by
  induction k with
  | zero =>
    rw [pow_zero, div_one]
    exact h
  | succ k ih =>
    rw [pow_succ, ← div_div]
    exact ih.shiftRightOne

/-- A half goes to the even neighbour. -/
theorem roundedMantissa_eq {n : Nat} (hlow : (n : ℚ) - 1 / 2 ≤ x) (hup : x ≤ n + 1 / 2)
    (hodd : n % 2 = 1 → (n : ℚ) - 1 / 2 < x ∧ x < n + 1 / 2) : em.roundedMantissa = n := by
  obtain ⟨m, r, s⟩ := em
  have cast_le : ∀ {a b : Nat}, (a : ℚ) < b + 1 → a ≤ b := by
    intro a b hab
    have : a < b + 1 := by exact_mod_cast hab
    omega
  unfold Approximates halves at h
  cases r <;> cases s <;> simp only [if_true, Bool.false_eq_true, if_false, add_zero] at h
  · show m = n
    exact Nat.le_antisymm (cast_le (by linarith)) (cast_le (by linarith))
  · show m = n
    exact Nat.le_antisymm (cast_le (by linarith)) (cast_le (by linarith))
  · show m + m % 2 = n
    have hmn : m ≤ n := cast_le (by linarith)
    have hnm : n ≤ m + 1 := cast_le (by push_cast; linarith)
    rcases Nat.mod_two_eq_zero_or_one n with he | ho
    · omega
    · obtain ⟨h1, h2⟩ := hodd ho
      have hlt : m < n := by exact_mod_cast (by linarith : (m : ℚ) < n)
      have hle : n ≤ m := cast_le (by linarith)
      omega
  · show m + 1 = n
    exact Nat.le_antisymm (cast_le (by push_cast; linarith)) (cast_le (by push_cast; linarith))

end Approximates

section
variable {significand : Nat} {exponent : Int} {x : ℚ}

theorem eq_of_isNarrowBelow (h : isNarrowBelow significand exponent = true) :
    significand = 2 ^ 52 := by
  unfold isNarrowBelow at h
  rw [Bool.and_eq_true, beq_iff_eq] at h
  exact h.1

/-- The cell, in units of the last place. -/
theorem bounds_of_contains (hc : Canonical significand exponent)
    (h : (Cell.of significand exponent).Contains x) :
    significand - 1 / 2 ≤ x / 2 ^ exponent ∧ x / 2 ^ exponent ≤ significand + 1 / 2 ∧
      (significand % 2 = 1 → significand - 1 / 2 < x / 2 ^ exponent ∧
        x / 2 ^ exponent < significand + 1 / 2) ∧
      (isNarrowBelow significand exponent = true → significand - 1 / 4 ≤ x / 2 ^ exponent) := by
  have hpos := hc.pos
  have h2 : (0 : ℚ) < 2 ^ exponent := zpow_pos (by norm_num) _
  have hscale : (2 : ℚ) ^ (exponent - 2) = 2 ^ exponent / 4 := by
    rw [zpow_sub₀ (by norm_num)]
    norm_num
  obtain ⟨hlow, hup, hopen⟩ := h
  unfold Cell.of at hlow hup hopen
  dsimp only at hlow hup hopen
  rw [hscale] at hlow hup hopen
  simp only [le_div_iff₀ h2, div_le_iff₀ h2, lt_div_iff₀ h2, div_lt_iff₀ h2]
  by_cases hn : isNarrowBelow significand exponent = true
  · have hleast := eq_of_isNarrowBelow hn
    rw [if_pos hn, Nat.cast_sub (by omega)] at hlow
    push_cast at hlow hup
    exact ⟨by linarith, by linarith, fun ho => by omega, fun _ => by linarith⟩
  · rw [if_neg hn, Nat.cast_sub (by omega)] at hlow hopen
    push_cast at hlow hup hopen
    refine ⟨by linarith, by linarith, fun ho => ?_, fun hn' => absurd hn' hn⟩
    obtain ⟨h1, h2⟩ := hopen (by simp [ho])
    constructor <;> linarith

theorem contains_centre {significand : Nat} (hpos : 0 < significand) (exponent : Int) :
    (Cell.of significand exponent).Contains (significand * 2 ^ exponent) := by
  have h2 : (0 : ℚ) < 2 ^ (exponent - 2) := zpow_pos (by norm_num) _
  have hcentre : (significand : ℚ) * 2 ^ exponent =
      (4 * significand : Nat) * 2 ^ (exponent - 2) := by
    rw [zpow_sub₀ two_ne_zero]
    push_cast
    ring
  have hlow : (Cell.of significand exponent).lower < 4 * significand := by
    unfold Cell.of
    dsimp only
    split <;> omega
  have hup : 4 * significand < (Cell.of significand exponent).upper := by
    unfold Cell.of
    dsimp only
    omega
  rw [hcentre]
  unfold Cell.Contains
  show _ * 2 ^ (exponent - 2) ≤ _ ∧ _ ≤ _ * 2 ^ (exponent - 2) ∧
    (_ → _ * 2 ^ (exponent - 2) < _ ∧ _ < _ * 2 ^ (exponent - 2))
  simp only [mul_le_mul_iff_left₀ h2, mul_lt_mul_iff_left₀ h2, Nat.cast_le, Nat.cast_lt]
  exact ⟨hlow.le, hup.le, fun _ => ⟨hlow, hup⟩⟩

/-! ## Rounding -/

theorem shiftToTargetExponent_eq {m k : Nat} {e : Int} (accuracy : Accuracy)
    (hk : (Format.binary64.targetExponent (totalExponent m e) - e).toNat = k) :
    shiftToTargetExponent .binary64 m e accuracy =
      (ExtendedMantissa.ofMantissaAndAccuracy m accuracy >>> k, e + k) := by
  unfold shiftToTargetExponent shiftToExponent
  dsimp only
  rw [hk]

theorem targetExponent_eq (m : Nat) (e : Int) :
    Format.binary64.targetExponent (totalExponent m e) = max (m.log2 + e - 52) (-1074) := by
  simp only [Format.targetExponent, totalExponent, Format.mantissaBits, Format.minExponent]
  omega

theorem le_targetExponent_of_le {m : Nat} (hm : 2 ^ 52 ≤ m) (e : Int) :
    e ≤ Format.binary64.targetExponent (totalExponent m e) := by
  have hlog : 52 ≤ m.log2 := (Nat.le_log2 (by omega)).2 hm
  rw [targetExponent_eq]
  omega

theorem shiftToTargetExponent_of_lt {m : Nat} {e : Int} (hm : m < 2 ^ 53) (he : -1074 ≤ e) :
    shiftToTargetExponent .binary64 m e .exact = (⟨m, false, false⟩, e) := by
  have hlog : m.log2 ≤ 52 := by
    by_cases h0 : m = 0
    · rw [h0]
      decide
    · have := (Nat.log2_lt h0).2 hm
      omega
  have hk : (Format.binary64.targetExponent (totalExponent m e) - e).toNat = 0 := by
    rw [targetExponent_eq]
    omega
  rw [shiftToTargetExponent_eq .exact hk, Nat.cast_zero, add_zero]
  rfl

theorem shiftToTargetExponent_of_carry {e : Int} (he : -1074 ≤ e) :
    shiftToTargetExponent .binary64 (2 ^ 53) e .exact = (⟨2 ^ 52, false, false⟩, e + 1) := by
  have hk : (Format.binary64.targetExponent (totalExponent (2 ^ 53) e) - e).toNat = 1 := by
    rw [targetExponent_eq, Nat.log2_two_pow]
    omega
  rw [shiftToTargetExponent_eq .exact hk]
  rfl

/-- A mantissa that fits is not changed. -/
theorem roundWithAccuracy_of_lt {m : Nat} {e : Int} (hpos : 0 < m) (hm : m < 2 ^ 53)
    (he : -1074 ≤ e) (sign : Sign) :
    roundWithAccuracy .binary64 sign m e .exact = .finite sign m e hpos := by
  unfold roundWithAccuracy
  have hround : (ExtendedMantissa.mk m false false).roundedMantissa = m := rfl
  simp only [shiftToTargetExponent_of_lt hm he, hround, dif_neg hpos.ne']

theorem mantissa_ofMantissaAndAccuracy (m : Nat) (accuracy : Accuracy) :
    (ExtendedMantissa.ofMantissaAndAccuracy m accuracy).mantissa = m := by
  obtain _ | (_ | _ | _) := accuracy <;> rfl

/--
A mantissa at its target exponent has at most fifty-three bits, and no fewer but for the least
exponent.
-/
theorem scaled_bounds {m k : Nat} {e : Int} {accuracy : Accuracy} {y : ℚ}
    (hy : Approximates (.ofMantissaAndAccuracy m accuracy) y)
    (hk : Format.binary64.targetExponent (totalExponent m e) = e + k) :
    y / 2 ^ k < 2 ^ 53 ∧ (e + k ≠ -1074 → 2 ^ 52 ≤ y / 2 ^ k) := by
  have h2 : (0 : ℚ) < 2 ^ k := pow_pos (by norm_num) _
  obtain ⟨hlow, hup⟩ := hy.bounds
  rw [mantissa_ofMantissaAndAccuracy] at hlow hup
  rw [targetExponent_eq] at hk
  rw [div_lt_iff₀ h2, le_div_iff₀ h2, ← pow_add, ← pow_add]
  refine ⟨?_, fun hmin => ?_⟩
  · have hlt : m + 1 ≤ 2 ^ (53 + k) := by
      calc m + 1 ≤ 2 ^ (m.log2 + 1) := Nat.lt_log2_self
        _ ≤ 2 ^ (53 + k) := Nat.pow_le_pow_right (by decide) (by omega)
    have hcast : (m : ℚ) + 1 ≤ 2 ^ (53 + k) := by exact_mod_cast hlt
    linarith
  · have hlog : m.log2 = 52 + k := by omega
    have hne : m ≠ 0 := by
      rintro rfl
      rw [Nat.log2_zero] at hlog
      omega
    have hle : 2 ^ (52 + k) ≤ m := by
      rw [← hlog]
      exact Nat.log2_self_le hne
    have hcast : (2 : ℚ) ^ (52 + k) ≤ m := by exact_mod_cast hle
    linarith

/--
A mantissa of fifty-three bits has the exponent of the result. Only a carry makes the exponent
larger.
-/
theorem exponent_cases (hc : Canonical significand exponent) {e : Int} (he : -1074 ≤ e) {y : ℚ}
    (hlow : significand - 1 / 2 ≤ y) (hup : y * 2 ^ (exponent - e) < 2 ^ 53)
    (hfull : e ≠ -1074 → 2 ^ 52 ≤ y * 2 ^ (exponent - e)) (habove : y ≤ significand + 1 / 2) :
    exponent = e ∨ exponent = e + 1 ∧ significand = 2 ^ 52 := by
  have hmin := hc.le
  have hlt : (significand : ℚ) + 1 ≤ 2 ^ 53 := by exact_mod_cast hc.lt
  rcases lt_trichotomy exponent e with hless | heq | hmore
  · -- the result would have more than fifty-three bits
    have h2 : (2 : ℚ) ^ (exponent - e) ≤ 2 ^ (-1 : Int) :=
      zpow_le_zpow_right₀ (by norm_num) (by omega)
    have hy : y * 2 ^ (exponent - e) ≤ (2 ^ 53 - 1 / 2) * 2 ^ (-1 : Int) :=
      mul_le_mul (by linarith) h2 (by positivity) (by norm_num)
    have hy' := hfull (by omega)
    norm_num at hy hy'
    linarith
  · exact .inl heq
  · have hnormal : (2 : ℚ) ^ 52 ≤ significand := by
      exact_mod_cast hc.normal.resolve_right (by omega)
    have hy : (2 : ℚ) ^ 52 - 1 / 2 ≤ y := by linarith
    have hone : exponent = e + 1 := by
      by_contra hne
      have h2 : (2 : ℚ) ^ (2 : Int) ≤ 2 ^ (exponent - e) :=
        zpow_le_zpow_right₀ (by norm_num) (by omega)
      have hmul : (2 ^ 52 - 1 / 2) * 2 ^ (2 : Int) ≤ y * 2 ^ (exponent - e) :=
        mul_le_mul hy h2 (by positivity) (le_trans (by norm_num) hy)
      norm_num at hmul hup
      linarith
    rw [hone, add_sub_cancel_left, zpow_one] at hup
    have hlt : (significand : ℚ) < 2 ^ 52 + 1 := by linarith
    have hlt : significand < 2 ^ 52 + 1 := by exact_mod_cast hlt
    have hle : 2 ^ 52 ≤ significand := by exact_mod_cast hnormal
    exact .inr ⟨hone, by omega⟩

/--
A number is rounded to the binary number of its cell, when the mantissa has all the bits that count.
-/
theorem roundWithAccuracy_eq (hc : Canonical significand exponent) {m : Nat} {e : Int}
    {accuracy : Accuracy} (hx : Approximates (.ofMantissaAndAccuracy m accuracy) (x / 2 ^ e))
    (hcell : (Cell.of significand exponent).Contains x)
    (he : e ≤ Format.binary64.targetExponent (totalExponent m e)) (sign : Sign) :
    roundWithAccuracy .binary64 sign m e accuracy = .finite sign significand exponent hc.pos := by
  obtain ⟨k, hk⟩ : ∃ k : Nat, Format.binary64.targetExponent (totalExponent m e) = e + k :=
    ⟨(Format.binary64.targetExponent (totalExponent m e) - e).toNat, by omega⟩
  have hmin : -1074 ≤ e + k := by
    rw [← hk, targetExponent_eq]
    omega
  obtain ⟨hup, hfull⟩ := scaled_bounds hx hk
  have hshift := hx.shiftRight k
  obtain ⟨hbelow, habove, hodd, hnarrow⟩ := bounds_of_contains hc hcell
  -- what is rounded, in units of the last place of the result
  have hunit : x / 2 ^ e / 2 ^ k = x / 2 ^ exponent * 2 ^ (exponent - (e + k)) := by
    rw [zpow_sub₀ two_ne_zero, zpow_add₀ two_ne_zero, zpow_natCast]
    have h2 : (2 : ℚ) ^ exponent ≠ 0 := (zpow_pos (by norm_num) _).ne'
    field_simp
  rw [hunit] at hup hfull hshift
  have hk' : (Format.binary64.targetExponent (totalExponent m e) - e).toNat = k := by omega
  unfold roundWithAccuracy
  rw [shiftToTargetExponent_eq accuracy hk']
  dsimp only
  rcases exponent_cases hc hmin hbelow hup hfull habove with rfl | ⟨rfl, hs⟩
  · rw [sub_self, zpow_zero, mul_one] at hshift
    simp only [hshift.roundedMantissa_eq hbelow habove hodd, shiftToTargetExponent_of_lt hc.lt hmin,
      dif_neg hc.pos.ne']
  · subst hs
    have hbelow := hnarrow <| by
      have hne : e + k + 1 ≠ -1074 := by omega
      simp [isNarrowBelow, hiddenBit, hne]
    rw [add_sub_cancel_left, zpow_one] at hshift hup
    push_cast at hbelow
    have hround := hshift.roundedMantissa_eq
      (show ((2 ^ 53 : Nat) : ℚ) - 1 / 2 ≤ _ by push_cast; linarith)
      (show _ ≤ ((2 ^ 53 : Nat) : ℚ) + 1 / 2 by push_cast; linarith)
      (fun ho => absurd ho (by decide))
    simp only [hround, shiftToTargetExponent_of_carry hmin]
    rfl

/-! ## Products and quotients -/

theorem mul_eq (hc : Canonical significand exponent) {m₁ m₂ : Nat} {e₁ e₂ : Int} (h₁ : 0 < m₁)
    (h₂ : 0 < m₂) (hcell : (Cell.of significand exponent).Contains (m₁ * 2 ^ e₁ * (m₂ * 2 ^ e₂)))
    (hm : 2 ^ 52 ≤ m₁ * m₂) :
    UnpackedFloat.mul .binary64 (.finite .positive m₁ e₁ h₁) (.finite .positive m₂ e₂ h₂) =
      .finite .positive significand exponent hc.pos := by
  refine roundWithAccuracy_eq hc ?_ hcell (le_targetExponent_of_le hm _) _
  show _ / _ = ((m₁ * m₂ : Nat) : ℚ) + 0
  have h2 : (2 : ℚ) ^ (e₁ + e₂) ≠ 0 := (zpow_pos (by norm_num) _).ne'
  rw [div_eq_iff h2, zpow_add₀ (by norm_num)]
  push_cast
  ring

theorem approximates_div (m : Nat) {d : Nat} (hd : 0 < d) :
    Approximates (.ofMantissaAndAccuracy (m / d) (accuracyOfFraction (m % d) d)) (m / d) := by
  have hd' : (0 : ℚ) < d := by exact_mod_cast hd
  have hm : (m : ℚ) / d = (m / d : Nat) + ((m % d : Nat) : ℚ) / d := by
    have : (m : ℚ) = d * (m / d : Nat) + (m % d : Nat) := by
      exact_mod_cast (Nat.div_add_mod m d).symm
    rw [div_eq_iff hd'.ne', add_mul, div_mul_cancel₀ _ hd'.ne']
    linarith
  have hrest : m % d < d := Nat.mod_lt m hd
  generalize m % d = rest at *
  rw [hm]
  unfold accuracyOfFraction
  by_cases h0 : rest = 0
  · rw [if_pos h0, h0]
    show ((m / d : Nat) : ℚ) + ((0 : Nat) : ℚ) / d = (m / d : Nat) + 0
    rw [Nat.cast_zero, zero_div]
  · rw [if_neg h0]
    have hpos : (0 : ℚ) < (rest : ℚ) / d := div_pos (by exact_mod_cast Nat.pos_of_ne_zero h0) hd'
    have hlt : (rest : ℚ) / d < 1 := (div_lt_one hd').2 (by exact_mod_cast hrest)
    rcases lt_trichotomy (2 * rest) d with h | h | h
    · have hhalf : (rest : ℚ) / d < 1 / 2 := by
        rw [div_lt_iff₀ hd']
        have : (2 * rest : ℚ) < d := by exact_mod_cast h
        linarith
      rw [Nat.compare_eq_lt.2 h]
      show ((m / d : Nat) : ℚ) + 0 < _ ∧ _ < ((m / d : Nat) : ℚ) + 0 + 1 / 2
      constructor <;> linarith
    · have hhalf : (rest : ℚ) / d = 1 / 2 := by
        rw [div_eq_iff hd'.ne']
        have : (2 * rest : ℚ) = d := by exact_mod_cast h
        linarith
      rw [Nat.compare_eq_eq.2 h, hhalf]
      rfl
    · have hhalf : 1 / 2 < (rest : ℚ) / d := by
        rw [lt_div_iff₀ hd']
        have : (d : ℚ) < 2 * rest := by exact_mod_cast h
        linarith
      rw [Nat.compare_eq_gt.2 h]
      show ((m / d : Nat) : ℚ) + 1 / 2 < _ ∧ _ < ((m / d : Nat) : ℚ) + 1 / 2 + 1 / 2
      constructor <;> linarith

/-- The quotient has all the bits that count. -/
theorem le_targetExponent_div {m₁ m₂ : Nat} (h₁ : 0 < m₁) (h₂ : 0 < m₂) {e t : Int}
    (ht : t = min e (Format.binary64.targetExponent (m₁.log2 - m₂.log2 + e))) :
    t ≤ Format.binary64.targetExponent (totalExponent (m₁ <<< (e - t).toNat / m₂) t) := by
  have htarget : Format.binary64.targetExponent (m₁.log2 - m₂.log2 + e) =
      max (m₁.log2 - m₂.log2 + e - 53) (-1074) := by
    simp only [Format.targetExponent, Format.mantissaBits, Format.minExponent]
    omega
  rw [htarget] at ht
  by_cases hmin : t ≤ -1074
  · rw [targetExponent_eq]
    omega
  · refine le_targetExponent_of_le ?_ t
    rw [Nat.le_div_iff_mul_le h₂, Nat.shiftLeft_eq]
    calc 2 ^ 52 * m₂ ≤ 2 ^ 52 * 2 ^ (m₂.log2 + 1) := Nat.mul_le_mul_left _ Nat.lt_log2_self.le
      _ = 2 ^ (52 + (m₂.log2 + 1)) := (pow_add ..).symm
      _ ≤ 2 ^ (m₁.log2 + (e - t).toNat) := Nat.pow_le_pow_right (by decide) (by omega)
      _ = 2 ^ m₁.log2 * 2 ^ (e - t).toNat := pow_add ..
      _ ≤ m₁ * 2 ^ (e - t).toNat := Nat.mul_le_mul_right _ (Nat.log2_self_le h₁.ne')

theorem div_eq (hc : Canonical significand exponent) {m₁ m₂ : Nat} {e₁ e₂ : Int} (h₁ : 0 < m₁)
    (h₂ : 0 < m₂) (hcell : (Cell.of significand exponent).Contains (m₁ * 2 ^ e₁ / (m₂ * 2 ^ e₂))) :
    UnpackedFloat.div .binary64 (.finite .positive m₁ e₁ h₁) (.finite .positive m₂ e₂ h₂) =
      .finite .positive significand exponent hc.pos := by
  have htotal : totalExponent m₁ e₁ - totalExponent m₂ e₂ = m₁.log2 - m₂.log2 + (e₁ - e₂) := by
    unfold totalExponent
    omega
  unfold UnpackedFloat.div divCore
  dsimp only
  rw [htotal]
  generalize ht : min (e₁ - e₂) (Format.binary64.targetExponent (m₁.log2 - m₂.log2 + (e₁ - e₂))) = t
  refine roundWithAccuracy_eq hc ?_ hcell (le_targetExponent_div h₁ h₂ ht.symm) _
  have hquotient : (m₁ * 2 ^ e₁ / (m₂ * 2 ^ e₂) : ℚ) / 2 ^ t =
      ((m₁ <<< (e₁ - e₂ - t).toNat : Nat) : ℚ) / m₂ := by
    have hshift : (2 : ℚ) ^ (e₁ - e₂ - t).toNat = 2 ^ e₁ / 2 ^ e₂ / 2 ^ t := by
      rw [← zpow_natCast, Int.toNat_of_nonneg (by omega), zpow_sub₀ (by norm_num),
        zpow_sub₀ (by norm_num)]
    rw [Nat.shiftLeft_eq, Nat.cast_mul, Nat.cast_pow, Nat.cast_ofNat, hshift]
    have : (2 : ℚ) ^ e₂ ≠ 0 := (zpow_pos (by norm_num) _).ne'
    have : (2 : ℚ) ^ t ≠ 0 := (zpow_pos (by norm_num) _).ne'
    field_simp
  rw [hquotient]
  exact approximates_div _ h₂

end

end Binary64

end Reckoner
