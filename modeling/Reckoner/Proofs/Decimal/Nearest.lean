import Reckoner.Proofs.Decimal.Binary64
import Reckoner.Proofs.Decimal.Shortest

/-!
# Numerals are read back

A layout moves the point and adds zeros, which keeps the value of the shortest decimal. The value is
in the cell of the number, so the number is the nearest to its numeral.
-/

namespace Reckoner

def Numeral.value (n : Numeral) : ℚ :=
  valueOf (n.whole ++ n.fraction) * 10 ^ (n.power - n.fraction.length)

/-! ## Layouts -/

theorem valueOf_append_zeros (digits : List Char) (k : Nat) :
    Numeral.valueOf (digits ++ List.replicate k '0') = Numeral.valueOf digits * 10 ^ k := by
  induction k with
  | zero => simp
  | succ k ih =>
    rw [List.replicate_succ', ← List.append_assoc]
    unfold Numeral.valueOf at ih ⊢
    rw [List.foldl_append, ih, List.foldl_cons, List.foldl_nil, pow_succ]
    show 10 * _ + 0 = _
    ring

namespace Layout

theorem value_split (ds : List Char) (exponent : Int) :
    (Numeral.valueOf ((split ds exponent).1 ++ (split ds exponent).2) : ℚ) *
      10 ^ (-((split ds exponent).2.length : Int)) = Numeral.valueOf ds * 10 ^ exponent := by
  unfold split
  by_cases he : 0 ≤ exponent
  · obtain ⟨k, rfl⟩ := Int.eq_ofNat_of_zero_le he
    rw [if_pos he]
    simp [valueOf_append_zeros]
  · obtain ⟨k, rfl⟩ : ∃ k : Nat, exponent = -k := ⟨(-exponent).toNat, by omega⟩
    rw [if_neg he]
    dsimp only
    rw [Int.neg_neg, Int.toNat_natCast]
    by_cases hk : k < ds.length
    · rw [if_pos hk, List.splitAt_eq, List.take_append_drop, List.length_drop]
      congr 3
      omega
    · have hzeros : ['0'] ++ (List.replicate (k - ds.length) '0' ++ ds) =
          List.replicate (k - ds.length + 1) '0' ++ ds := by
        rw [List.replicate_succ]
        rfl
      rw [if_neg hk, hzeros, valueOf_zeros_append]
      simp only [List.length_append, List.length_replicate]
      congr 3
      omega

/-- Layouts put the point, and zeros, so that the value stays. -/
theorem value_arrange (layout : Layout) (negative : Bool) (d : Decimal) :
    (layout.arrange negative d).value = d.digits * 10 ^ d.exponent := by
  have hdigits := valueOf_toDigits d.digits
  unfold arrange
  dsimp only
  split
  · have hsplit := value_split (Nat.toDigits 10 d.digits) d.exponent
    rw [hdigits] at hsplit
    rw [← hsplit]
    generalize split (Nat.toDigits 10 d.digits) d.exponent = p
    obtain ⟨whole, fraction⟩ := p
    unfold Numeral.value Numeral.power
    dsimp only
    split
    · rename_i hshow
      rw [Bool.and_eq_true, List.isEmpty_iff] at hshow
      have hzero : Numeral.valueOf (whole ++ ['0']) = Numeral.valueOf whole * 10 ^ 1 :=
        valueOf_append_zeros whole 1
      rw [hshow.2, hzero, List.append_nil]
      norm_num
      ring
    · rw [zero_sub]
  · unfold Numeral.value Numeral.power
    dsimp only
    rw [List.take_append_drop, hdigits, List.length_drop]
    congr 2
    have hlength : 0 < (Nat.toDigits 10 d.digits).length := Nat.length_toDigits_pos
    generalize (Nat.toDigits 10 d.digits).length = k at *
    simp only [valueOf_toDigits, decide_eq_true_eq]
    split <;> omega

theorem negative_arrange (layout : Layout) (negative : Bool) (d : Decimal) :
    (layout.arrange negative d).negative = negative := by
  unfold arrange
  dsimp only
  split <;> rfl

end Layout

/-! ## Numerals in a cell -/

namespace Numeral

open Binary64 Decimal

theorem top_le {m : Nat} (hm : m ≠ 0) {power k : Int} (h : (m : ℚ) * 10 ^ power < 10 ^ k) :
    power + width m ≤ k := by
  obtain ⟨w, hw⟩ : ∃ w, width m = w + 1 := Nat.exists_eq_add_one.2 Nat.length_toDigits_pos
  have hpow := pow_width_le hm
  rw [hw, Nat.add_sub_cancel] at hpow
  have hle : (10 : ℚ) ^ w ≤ m := by exact_mod_cast hpow
  have hlt : (10 : ℚ) ^ (power + w) < 10 ^ k := by
    calc (10 : ℚ) ^ (power + w) = 10 ^ w * 10 ^ power := by
          rw [zpow_add₀ (by norm_num), zpow_natCast, mul_comm]
      _ ≤ m * 10 ^ power := mul_le_mul_of_nonneg_right hle (zpow_pos (by norm_num) _).le
      _ < 10 ^ k := h
  have := (zpow_lt_zpow_iff_right₀ (by norm_num)).1 hlt
  rw [hw]
  omega

theorem lt_top {m : Nat} {power k : Int} (h : 10 ^ k ≤ (m : ℚ) * 10 ^ power) :
    k < power + width m := by
  have hm : (m : ℚ) < 10 ^ width m := by exact_mod_cast lt_pow_width m
  have hlt : (10 : ℚ) ^ k < 10 ^ (power + width m) := by
    calc (10 : ℚ) ^ k ≤ m * 10 ^ power := h
      _ < 10 ^ width m * 10 ^ power := mul_lt_mul_of_pos_right hm (zpow_pos (by norm_num) _)
      _ = 10 ^ (power + width m) := by rw [zpow_add₀ (by norm_num), zpow_natCast, mul_comm]
  exact (zpow_lt_zpow_iff_right₀ (by norm_num)).1 hlt

/-- The range of binary numbers, in decimal. -/
theorem decimal_range {x : ℚ} (hlow : 2 ^ (-1075 : Int) ≤ x) (hup : x ≤ 2 ^ (1024 : Int)) :
    10 ^ (-maxPower) ≤ x ∧ x < 10 ^ maxPower := by
  have h1200 : (2 : ℚ) ^ (1200 : Int) ≤ 10 ^ maxPower := by
    rw [show (1200 : Int) = 3 * 400 from rfl, zpow_mul]
    exact zpow_le_zpow_left₀ (by decide) (by norm_num) (by norm_num)
  constructor
  · calc (10 : ℚ) ^ (-maxPower) ≤ 2 ^ (-1200 : Int) := by
          rw [zpow_neg, zpow_neg]
          exact inv_anti₀ (zpow_pos (by norm_num) _) h1200
      _ ≤ 2 ^ (-1075 : Int) := zpow_le_zpow_right₀ (by norm_num) (by decide)
      _ ≤ x := hlow
  · calc x ≤ 2 ^ (1024 : Int) := hup
      _ < 2 ^ (1200 : Int) := zpow_lt_zpow_right₀ (by norm_num) (by decide)
      _ ≤ 10 ^ maxPower := h1200

section
variable {n : Numeral} (hn : n.negative = false)
include hn

/-- The binary number in whose cell a numeral is, is the nearest to it. -/
theorem nearest_eq {x : Float} {significand : Nat} {exponent : Int}
    (hx : ofFloat x = .finite false significand exponent) (hpos : 0 < significand)
    (hcell : (Cell.of significand exponent).Contains n.value) : n.nearest = x := by
  obtain ⟨hc, hmax⟩ := canonical_of_ofFloat hx hpos
  obtain ⟨hlow, hup⟩ := range_of_contains hc hmax hcell
  obtain ⟨hmin, hmax⟩ := decimal_range hlow hup
  unfold value at hcell hmin hmax
  unfold nearest
  dsimp only
  rw [hn]
  generalize valueOf (n.whole ++ n.fraction) = m at *
  generalize n.power - n.fraction.length = power at *
  have hm : m ≠ 0 := by
    rintro rfl
    rw [Nat.cast_zero, zero_mul] at hmin
    exact absurd hmin (not_le.2 (zpow_pos (by norm_num) _))
  have htop : power + (Nat.toDigits 10 m).length ≤ maxPower := top_le hm hmax
  have hbottom : -maxPower < power + (Nat.toDigits 10 m).length := lt_top hmin
  rw [if_neg hm, if_neg (not_lt.2 htop), if_neg (not_lt.2 hbottom.le)]
  show (if 0 ≤ power then _ else _) = x
  by_cases hp : 0 ≤ power
  · rw [if_pos hp]
    refine ofScientific_eq hx hpos (Nat.pos_of_ne_zero hm) ?_
    rw [if_neg (by simp), Int.toNat_of_nonneg hp]
    exact hcell
  · rw [if_neg hp]
    refine ofScientific_eq hx hpos (Nat.pos_of_ne_zero hm) ?_
    rw [if_pos rfl, Int.toNat_of_nonneg (by omega), Int.neg_neg]
    exact hcell

theorem nearest_of_value_eq_zero (hv : n.value = 0) : n.nearest = 0.0 := by
  have hdigits : valueOf (n.whole ++ n.fraction) = 0 := by
    unfold value at hv
    exact_mod_cast (mul_eq_zero.1 hv).resolve_right (zpow_ne_zero _ (by norm_num))
  unfold nearest
  dsimp only
  rw [hn, hdigits]
  rfl

/-- Without a sign, no number is read as a negative one. -/
theorem isUnsigned_nearest : (ofFloat n.nearest).isUnsigned = true := by
  unfold nearest
  dsimp only
  rw [hn, if_neg (by simp)]
  split
  · decide +kernel
  rename_i hm
  have hpos := Nat.pos_of_ne_zero hm
  split
  · decide +kernel
  split
  · decide +kernel
  split
  · exact isUnsigned_ofScientific hpos _ _
  · exact isUnsigned_ofScientific hpos _ _

end

end Numeral

/-- A number without a sign is the nearest to its numeral, in every layout. -/
theorem Layout.nearest_numeral? {layout : Layout} {x : Float}
    (h : (Binary64.ofFloat x).isUnsigned = true) {n : Numeral} (hn : layout.numeral? x = some n) :
    n.negative = false ∧ n.nearest = x := by
  unfold numeral? at hn
  split at hn
  · cases hn
  · cases hn
  · rename_i negative exponent hx
    rw [hx] at h
    obtain rfl : negative = false := by simpa [Binary64.isUnsigned] using h
    cases hn
    have hnegative := negative_arrange layout false ⟨0, 0⟩
    refine ⟨hnegative, ?_⟩
    rw [Binary64.eq_zero_of_ofFloat hx, Numeral.nearest_of_value_eq_zero hnegative]
    rw [value_arrange, Nat.cast_zero, zero_mul]
  · rename_i negative significand exponent hpos hx
    rw [hx] at h
    obtain rfl : negative = false := by simpa [Binary64.isUnsigned] using h
    cases hn
    have hpos : 0 < significand := Nat.pos_of_ne_zero hpos
    have hnegative :=
      negative_arrange layout false (Decimal.shortest layout.tie significand exponent)
    refine ⟨hnegative, Numeral.nearest_eq hnegative hx hpos ?_⟩
    rw [value_arrange]
    exact Decimal.shortest_contains layout.tie (Binary64.canonical_of_ofFloat hx hpos).1

end Reckoner
