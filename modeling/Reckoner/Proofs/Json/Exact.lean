import Reckoner.Proofs.Decimal.Nearest
import Reckoner.Proofs.Json.Number

/-!
# Numbers that arrive

A number is read from its numeral with one multiplication or division. If the digits and the power
of ten are exact numbers, then the one rounding that is left gives the number back.
-/

namespace Reckoner

/-- The digits are an exact number, and so is the power of ten that comes with them. -/
structure Numeral.Short (n : Numeral) : Prop where
  digits : valueOf (n.whole ++ n.fraction) < 2 ^ 53
  power : (n.power - n.fraction.length).natAbs ≤ 22

namespace Json

open Binary64 Decimal

/-- What is read from the numeral that is written for a number. -/
def passed? (x : Float) : Option Float := toFloat? (ofFloat x)

/-! ## Digits that fit -/

theorem le_foldl_digits (ds : List Char) (n : Nat) :
    n ≤ ds.foldl (fun n c => 10 * n + (c.toNat - '0'.toNat)) n := by
  induction ds generalizing n with
  | nil => exact Nat.le_refl n
  | cons c ds ih => exact Nat.le_trans (show n ≤ 10 * n + (c.toNat - '0'.toNat) by omega) (ih _)

theorem absorb_eq (ds : List Char) (n : Nat)
    (h : ds.foldl (fun n c => 10 * n + (c.toNat - '0'.toNat)) n < UInt64.size) :
    absorb n ds = (ds.foldl (fun n c => 10 * n + (c.toNat - '0'.toNat)) n, []) := by
  induction ds generalizing n with
  | nil => rfl
  | cons c ds ih =>
    have hnext := le_foldl_digits ds (10 * n + (c.toNat - '0'.toNat))
    rw [List.foldl_cons] at h
    unfold absorb
    rw [if_pos (by omega)]
    exact ih _ h

theorem numberOf?_eq {n : Numeral} (h : Numeral.valueOf (n.whole ++ n.fraction) < UInt64.size) :
    numberOf? n = (scale? 3 (Float.ofNat (Numeral.valueOf (n.whole ++ n.fraction)))
      (n.power - n.fraction.length)).map fun x => if n.negative then -x else x := by
  unfold Numeral.valueOf at h ⊢
  rw [List.foldl_append] at h ⊢
  have hwhole := absorb_eq n.whole 0 (Nat.lt_of_le_of_lt (le_foldl_digits n.fraction _) h)
  unfold numberOf?
  rw [hwhole]
  dsimp only
  rw [absorb_eq n.fraction _ h]
  dsimp only
  rw [List.length_nil, Nat.sub_zero, Nat.cast_zero, add_zero]

/-! ## One exact operation -/

theorem tenTo_eq : ∀ e : Fin 23, tenTo e.val = Float.exactlyRepresentablePowersOfTen[e] := by
  decide +kernel

/-- Numbers up to these bounds are exact, so that there is one rounding. -/
theorem scale?_ofNat {m : Nat} (hm : m < 2 ^ 53) {power : Int} (hp : power.natAbs ≤ 22)
    (hinf : (Float.ofScientific m (power < 0) power.natAbs).isInf = false) :
    scale? 3 (Float.ofNat m) power = some (Float.ofScientific m (power < 0) power.natAbs) := by
  have hsize : power.natAbs < Float.exactlyRepresentablePowersOfTen.size := Nat.lt_succ_of_le hp
  have hten : tenTo power.natAbs = Float.exactlyRepresentablePowersOfTen[power.natAbs] :=
    tenTo_eq ⟨_, hsize⟩
  have hmax : power.natAbs ≤ maxPower := Nat.le_trans hp (by decide)
  unfold Float.ofScientific at hinf ⊢
  rw [dif_pos ⟨hm, hp⟩] at hinf ⊢
  unfold scale?
  rw [if_pos hmax, ofNat_eq hm, hten]
  generalize Float.exactlyRepresentablePowersOfTen[power.natAbs] = ten at *
  by_cases hneg : power < 0
  · rw [if_pos hneg, decide_eq_true hneg]
    rfl
  · rw [decide_eq_false hneg] at hinf ⊢
    rw [if_neg hneg]
    exact if_neg (by rw [show (_ * ten).isInf = false from hinf]; simp)

/-! ## Short numerals -/

theorem numberOf?_zero {x : Float} {negative : Bool} {exponent : Int}
    (h : Binary64.ofFloat x = .finite negative 0 exponent) :
    numberOf? (Layout.json.arrange negative ⟨0, 0⟩) = some x := by
  obtain rfl := exponent_of_zero h
  cases negative with
  | false =>
    rw [ofFloat_injective (y := 0.0) (h.trans (by decide +kernel))]
    decide +kernel
  | true =>
    rw [ofFloat_injective (y := -0.0) (h.trans (by decide +kernel))]
    decide +kernel

theorem numberOf?_of_contains {x : Float} {significand : Nat} {exponent : Int}
    (hx : Binary64.ofFloat x = .finite false significand exponent) (hpos : 0 < significand)
    {n : Numeral} (hn : n.Short) (hcell : (Cell.of significand exponent).Contains n.value) :
    numberOf? n = some (if n.negative then -x else x) := by
  obtain ⟨hc, hmax⟩ := canonical_of_ofFloat hx hpos
  obtain ⟨hdigits, hpower⟩ := hn
  have hlow := (range_of_contains hc hmax hcell).1
  rw [numberOf?_eq (Nat.lt_trans hdigits (by decide))]
  unfold Numeral.value at hcell hlow
  generalize Numeral.valueOf (n.whole ++ n.fraction) = m at *
  generalize n.power - n.fraction.length = power at *
  have hm : m ≠ 0 := by
    rintro rfl
    rw [Nat.cast_zero, zero_mul] at hlow
    exact absurd hlow (not_le.2 (zpow_pos (by norm_num) _))
  have hsign : (if decide (power < 0) = true then -(power.natAbs : Int) else power.natAbs) =
      power := by
    by_cases hneg : power < 0
    · rw [if_pos (decide_eq_true hneg)]
      omega
    · rw [if_neg (by simpa using hneg)]
      omega
  have hscientific : Float.ofScientific m (power < 0) power.natAbs = x :=
    ofScientific_eq hx hpos (Nat.pos_of_ne_zero hm) (by rwa [hsign])
  have hinf : (Float.ofScientific m (power < 0) power.natAbs).isInf = false := by
    rw [hscientific]
    exact isInf_eq_false hx
  rw [scale?_ofNat hdigits hpower hinf, hscientific]
  rfl

/-- A number with a short numeral arrives as it is. -/
theorem passed?_eq_some {x : Float} {n : Numeral} (hn : Layout.json.numeral? x = some n)
    (h : n.Short) : passed? x = some x := by
  have hread : passed? x = numberOf? n := by
    unfold passed? Json.ofFloat
    rw [hn]
    rfl
  rw [hread]
  unfold Layout.numeral? at hn
  split at hn
  · cases hn
  · cases hn
  · rename_i hx
    cases hn
    exact numberOf?_zero hx
  · rename_i negative significand exponent hne hx
    cases hn
    have hpos : 0 < significand := Nat.pos_of_ne_zero hne
    obtain ⟨y, hy, rfl⟩ := exists_unsigned hx hpos
    have hcell := shortest_contains Layout.json.tie (canonical_of_ofFloat hy hpos).1
    rw [← Layout.value_arrange Layout.json negative] at hcell
    rw [numberOf?_of_contains hy hpos h hcell, Layout.negative_arrange]

/-! ## Whole numbers -/

theorem short_arrange {d : Decimal} {e k : Nat} (he : d.exponent = e) (hd : d.digits * 10 ^ e = k)
    (hpos : 0 < k) (hlt : 10 * k < 2 ^ 53) (negative : Bool) :
    (Layout.json.arrange negative d).Short := by
  have hdigits : d.digits ≠ 0 := by
    rintro h
    rw [h, Nat.zero_mul] at hd
    omega
  have hpositional : Layout.json.positional (d.exponent + (Nat.toDigits 10 d.digits).length - 1) =
      true := by
    have hlength : 0 < width d.digits := Nat.length_toDigits_pos
    have hpow : 10 ^ (width d.digits - 1 + e) < 10 ^ 16 := by
      calc 10 ^ (width d.digits - 1 + e) = 10 ^ (width d.digits - 1) * 10 ^ e := pow_add ..
        _ ≤ d.digits * 10 ^ e := Nat.mul_le_mul_right _ (pow_width_le hdigits)
        _ < 10 ^ 16 := by omega
    have hlarge := (Nat.pow_lt_pow_iff_right (by decide)).1 hpow
    unfold width at hlength hlarge
    simp only [Layout.json, he, Bool.and_eq_true, decide_eq_true_eq]
    omega
  have hsplit : Layout.split (Nat.toDigits 10 d.digits) d.exponent =
      (Nat.toDigits 10 d.digits ++ List.replicate e '0', []) := by
    unfold Layout.split
    rw [if_pos (by omega), he, Int.toNat_natCast]
  have hvalue : Numeral.valueOf (Nat.toDigits 10 d.digits ++ List.replicate e '0' ++ ['0']) =
      k * 10 ^ 1 := by
    rw [← hd, ← valueOf_toDigits d.digits, ← valueOf_append_zeros, ← valueOf_append_zeros,
      valueOf_toDigits]
    rfl
  have harrange : Layout.json.arrange negative d =
      ⟨negative, Nat.toDigits 10 d.digits ++ List.replicate e '0', ['0'], none⟩ := by
    unfold Layout.arrange
    dsimp only
    rw [if_pos hpositional, hsplit]
    rfl
  rw [harrange]
  refine ⟨?_, (by decide : (0 - 1 : Int).natAbs ≤ 22)⟩
  rw [hvalue]
  omega

theorem passed?_of_whole {x : Float} {negative : Bool} {significand : Nat} {exponent : Int}
    (hx : Binary64.ofFloat x = .finite negative significand exponent) {k : Nat}
    (hk : (significand : ℚ) * 2 ^ exponent = k) (hlt : 10 * k < 2 ^ 53) : passed? x = some x := by
  cases significand with
  | zero =>
    refine passed?_eq_some (n := Layout.json.arrange negative ⟨0, 0⟩) ?_ ⟨?_, ?_⟩
    · unfold Layout.numeral?
      rw [hx]
      rfl
    · cases negative <;> decide
    · cases negative <;> decide
  | succ s =>
    have hpos : 0 < s + 1 := s.succ_pos
    have hkpos : 0 < k := by
      have : (0 : ℚ) < k := hk ▸ mul_pos (by exact_mod_cast hpos) (zpow_pos (by norm_num) _)
      exact_mod_cast this
    obtain ⟨hexponent, hdigits⟩ := shortest_of_whole (canonical_of_ofFloat hx hpos).1 hk (by omega)
      Layout.json.tie
    obtain ⟨e, he⟩ := Int.eq_ofNat_of_zero_le hexponent
    rw [he, Int.toNat_natCast] at hdigits
    refine passed?_eq_some ?_ (short_arrange he hdigits hkpos hlt negative)
    unfold Layout.numeral?
    rw [hx]
    rfl

/-- Whole numbers that are not too large arrive as they are. -/
theorem passed?_ofNat {k : Nat} (h : 10 * k < 2 ^ 53) :
    passed? (Float.ofNat k) = some (Float.ofNat k) ∧
    passed? (-Float.ofNat k) = some (-Float.ofNat k) := by
  rcases Nat.eq_zero_or_pos k with rfl | hpos
  · decide +kernel
  · have hk : k < 2 ^ 53 := by omega
    obtain ⟨significand, exponent, hs, hu, -, hvalue⟩ := unpack_toFloat hpos hk
    have hx := ofFloat_of_unpack hu
    rw [ofNat_eq hk]
    exact ⟨passed?_of_whole hx hvalue h, passed?_of_whole (ofFloat_neg hx hs) hvalue h⟩

end Json

end Reckoner
