import Reckoner.Proofs.Decimal.Rounding

/-!
# Binary64 numbers from decimals

The bits of a number say what it is, and a decimal in the cell of a number is read as this number.
Small decimals are one multiplication or division of numbers that are both exact, other decimals one
rounding.
-/

namespace Reckoner.Binary64

open Float.Model Float.Model.UnpackedFloat Decimal

/-! ## Bits -/

theorem pack_unpack (x : Float) : Float.ofModel (Float.Model.pack x.toModel.unpack) = x := by
  have h : UnpackedFloat.pack .binary64 (UnpackedFloat.unpack .binary64 x.toModel.toBits.toBitVec) =
      x.toModel.toBits.toBitVec := pack_unpack_of_valid x.toModel.valid
  obtain ⟨⟨⟨bits⟩, valid⟩⟩ := x
  unfold Float.Model.pack Float.Model.unpack
  congr 2
  congr 1

section
variable (x : Float)

theorem toNat_unpackExponent :
    (@unpackExponent .binary64 x.toModel.toBits.toBitVec).toNat = x.toBits.toNat >>> 52 % 2048 := by
  rw [unpackExponent_def, BitVec.extractLsb'_toNat]
  rfl

theorem toNat_unpackMantissa :
    (@unpackMantissa .binary64 x.toModel.toBits.toBitVec).toNat = x.toBits.toNat % hiddenBit := by
  rw [unpackMantissa_def, BitVec.extractLsb'_toNat]
  rfl

theorem toNat_unpackSign : (@unpackSign .binary64 x.toModel.toBits.toBitVec).toNat =
    x.toBits.toNat >>> 63 := by
  rw [unpackSign_def, BitVec.extractLsb'_toNat]
  have hlt : x.toBits.toNat < 2 ^ 64 := x.toBits.toNat_lt
  have : x.toBits.toNat >>> 63 < 2 := by
    rw [Nat.shiftRight_eq_div_pow]
    omega
  exact Nat.mod_eq_of_lt this

end

def isNegative : Sign → Bool
  | .negative => true
  | .positive => false

theorem isNegative_injective {s t : Sign} (h : isNegative s = isNegative t) : s = t := by
  cases s <;> cases t <;> first | rfl | cases h

theorem isNegative_unpackSign (x : Float) :
    isNegative (.ofBitVec (@unpackSign .binary64 x.toModel.toBits.toBitVec)) =
      (x.toBits.toNat >>> 63 == 1) := by
  rw [← toNat_unpackSign]
  generalize @unpackSign .binary64 x.toModel.toBits.toBitVec = s
  revert s
  decide

theorem toNat_hidden_append (m : BitVec 52) : (1#1 ++ m).toNat = hiddenBit + m.toNat := by
  rw [BitVec.toNat_append, ← Nat.shiftLeft_add_eq_or_of_lt m.isLt]
  rfl

def ofUnpacked : UnpackedFloat → Binary64
  | .notANumber => .nan
  | .infinity sign => .infinite (isNegative sign)
  | .zero sign => .finite (isNegative sign) 0 (-1074)
  | .finite sign significand exponent _ => .finite (isNegative sign) significand exponent

theorem ofUnpacked_unpack (x : Float) : ofUnpacked x.toModel.unpack = ofFloat x := by
  have hsign := isNegative_unpackSign x
  have hexponent := toNat_unpackExponent x
  have hmantissa := toNat_unpackMantissa x
  have hfield : ∀ n, n < 2 ^ 11 →
      (@unpackExponent .binary64 x.toModel.toBits.toBitVec = BitVec.ofNat 11 n ↔
        x.toBits.toNat >>> 52 % 2048 = n) := by
    intro n hn
    rw [← hexponent, ← BitVec.toNat_inj, BitVec.toNat_ofNat, Nat.mod_eq_of_lt hn]
  have hzero : @unpackMantissa .binary64 x.toModel.toBits.toBitVec = 0#52 ↔
      x.toBits.toNat % hiddenBit = 0 := by
    rw [← hmantissa, ← BitVec.toNat_inj]
    rfl
  have hlast : @unpackExponent .binary64 x.toModel.toBits.toBitVec = -1#11 ↔
      x.toBits.toNat >>> 52 % 2048 = 2047 :=
    hfield 2047 (by decide)
  have hfirst : @unpackExponent .binary64 x.toModel.toBits.toBitVec = 0#11 ↔
      x.toBits.toNat >>> 52 % 2048 = 0 :=
    hfield 0 (by decide)
  unfold Float.Model.unpack UnpackedFloat.unpack ofFloat
  dsimp only
  by_cases he : x.toBits.toNat >>> 52 % 2048 = 2047
  · rw [if_pos (hlast.2 he), if_pos he]
    by_cases hm : x.toBits.toNat % hiddenBit = 0
    · rw [if_pos (hzero.2 hm), if_pos hm]
      exact congrArg _ hsign
    · rw [if_neg (mt hzero.1 hm), if_neg hm]
      rfl
  rw [if_neg (mt hlast.1 he), if_neg he]
  by_cases he0 : x.toBits.toNat >>> 52 % 2048 = 0
  · rw [if_pos (hfirst.2 he0), if_pos he0]
    by_cases hm : x.toBits.toNat % hiddenBit = 0
    · rw [dif_pos (hzero.2 hm), hm]
      exact congrArg (Binary64.finite · 0 (-1074)) hsign
    · rw [dif_neg (mt hzero.1 hm)]
      show Binary64.finite _ _ _ = _
      rw [hsign, hmantissa, hexponent, he0]
      rfl
  · rw [if_neg (mt hfirst.1 he0), if_neg he0]
    show Binary64.finite _ _ _ = _
    rw [hsign, hexponent, toNat_hidden_append, hmantissa]
    rfl

theorem ofUnpacked_injective {u v : UnpackedFloat} (h : ofUnpacked u = ofUnpacked v) : u = v := by
  cases u with
  | notANumber => cases v <;> first | rfl | cases h
  | infinity s =>
    cases v with
    | infinity t => rw [isNegative_injective (Binary64.infinite.inj h)]
    | _ => cases h
  | zero s =>
    cases v with
    | zero t => rw [isNegative_injective (Binary64.finite.inj h).1]
    | finite t m e hm => exact absurd (Binary64.finite.inj h).2.1 hm.ne
    | _ => cases h
  | finite s m e hm =>
    cases v with
    | finite t m' e' hm' =>
      obtain ⟨hs, rfl, rfl⟩ := Binary64.finite.inj h
      rw [isNegative_injective hs]
    | zero t => exact absurd (Binary64.finite.inj h).2.1 hm.ne'
    | _ => cases h

/-- A number is known by its parts, and there is one number that is none. -/
theorem ofFloat_injective {x y : Float} (h : ofFloat x = ofFloat y) : x = y := by
  rw [← ofUnpacked_unpack, ← ofUnpacked_unpack] at h
  rw [← pack_unpack x, ofUnpacked_injective h, pack_unpack]

theorem unpack_eq_of_ofFloat {x : Float} {significand : Nat} {exponent : Int}
    (h : ofFloat x = .finite false significand exponent) (hpos : 0 < significand) :
    x.toModel.unpack = .finite .positive significand exponent hpos :=
  ofUnpacked_injective ((ofUnpacked_unpack x).trans h)

theorem ofFloat_of_unpack {x : Float} {sign : Sign} {significand : Nat} {exponent : Int}
    {hpos : 0 < significand} (h : x.toModel.unpack = .finite sign significand exponent hpos) :
    ofFloat x = .finite (isNegative sign) significand exponent := by
  rw [← ofUnpacked_unpack, h]
  rfl

theorem canonical_of_ofFloat {x : Float} {negative : Bool} {significand : Nat} {exponent : Int}
    (h : ofFloat x = .finite negative significand exponent) (hpos : 0 < significand) :
    Canonical significand exponent ∧ exponent ≤ 971 := by
  have hfraction : x.toBits.toNat % hiddenBit < 2 ^ 52 := Nat.mod_lt _ (by decide)
  have hscale : x.toBits.toNat >>> 52 % 2048 < 2048 := Nat.mod_lt _ (by decide)
  have hhidden : hiddenBit = 2 ^ 52 := rfl
  unfold ofFloat at h
  dsimp only at h
  split at h
  · split at h <;> cases h
  split at h
  · obtain ⟨-, rfl, rfl⟩ := Binary64.finite.inj h
    exact ⟨⟨hpos, by omega, by omega, .inr rfl⟩, by omega⟩
  · obtain ⟨-, rfl, rfl⟩ := Binary64.finite.inj h
    exact ⟨⟨hpos, by omega, by omega, .inl (by omega)⟩, by omega⟩

theorem exponent_of_zero {x : Float} {negative : Bool} {exponent : Int}
    (h : ofFloat x = .finite negative 0 exponent) : exponent = -1074 := by
  unfold ofFloat at h
  dsimp only at h
  split at h
  · split at h <;> cases h
  split at h
  · exact (Binary64.finite.inj h).2.2.symm
  · have hhidden : 0 < hiddenBit := by decide
    have := (Binary64.finite.inj h).2.1
    omega

theorem eq_zero_of_ofFloat {x : Float} {exponent : Int} (h : ofFloat x = .finite false 0 exponent) :
    x = 0.0 := by
  refine ofFloat_injective ?_
  rw [h, exponent_of_zero h]
  decide +kernel

theorem isInf_eq_false {x : Float} {negative : Bool} {significand : Nat} {exponent : Int}
    (h : ofFloat x = .finite negative significand exponent) : x.isInf = false := by
  show x.toModel.unpack.isInf = false
  rw [← ofUnpacked_unpack] at h
  generalize x.toModel.unpack = u at h
  cases u with
  | infinity sign => cases h
  | _ => rfl

/-! ## Signs -/

def isUnsigned : Binary64 → Bool
  | .nan => true
  | .infinite negative => !negative
  | .finite negative _ _ => !negative

def signOf : UnpackedFloat → Sign
  | .notANumber => .positive
  | .infinity s => s
  | .zero s => s
  | .finite s _ _ _ => s

theorem unpackSign_pack (u : UnpackedFloat) :
    unpackSign (UnpackedFloat.pack .binary64 u) = (signOf u).toBitVec := by
  unfold UnpackedFloat.pack
  split
  · exact unpackSign_packComponents ..
  · exact unpackSign_packComponents ..
  · exact unpackSign_packComponents ..
  · dsimp only
    split
    · exact unpackSign_packComponents ..
    · split
      · exact unpackSign_packComponents ..
      · exact unpackSign_packComponents ..

theorem isUnsigned_pack {u : UnpackedFloat} (h : signOf u = .positive) :
    (ofFloat (Float.ofModel (Float.Model.pack u))).isUnsigned = true := by
  have hsign := isNegative_unpackSign (Float.ofModel (Float.Model.pack u))
  have hu : @unpackSign .binary64 (Float.Model.pack u).toBits.toBitVec = 0#1 := by
    show unpackSign (UnpackedFloat.pack .binary64 u) = 0#1
    rw [unpackSign_pack, h]
    rfl
  have hfalse : ((Float.ofModel (Float.Model.pack u)).toBits.toNat >>> 63 == 1) = false := by
    rw [← hsign]
    show isNegative (.ofBitVec (@unpackSign .binary64 (Float.Model.pack u).toBits.toBitVec)) = false
    rw [hu]
    rfl
  unfold ofFloat
  dsimp only
  rw [hfalse]
  split
  · split <;> rfl
  · split <;> rfl

theorem signOf_roundWithAccuracy (s : Sign) (m : Nat) (e : Int) (accuracy : Accuracy) :
    signOf (roundWithAccuracy .binary64 s m e accuracy) = s := by
  unfold roundWithAccuracy
  dsimp only
  split <;> rfl

theorem signOf_ofScientific (m : Nat) (e : Int) :
    signOf (UnpackedFloat.ofScientific .binary64 m e) = .positive := by
  unfold UnpackedFloat.ofScientific
  split
  · rfl
  split
  · rfl
  split
  · rfl
  split
  · exact signOf_roundWithAccuracy ..
  · exact signOf_roundWithAccuracy ..

/-! ## Exact numbers -/

theorem unpack_pack {significand : Nat} {exponent : Int} (hlow : 2 ^ 52 ≤ significand)
    (hhigh : significand < 2 ^ 53) (hmin : -1074 ≤ exponent) (hmax : exponent ≤ 971) (sign : Sign)
    (hpos : 0 < significand) :
    (Float.Model.pack (.finite sign significand exponent hpos)).unpack =
      .finite sign significand exponent hpos := by
  have hlog : significand.log2 + 1 = 53 := by
    have : significand.log2 = 52 := (Nat.log2_eq_iff (by omega)).2 ⟨hlow, hhigh⟩
    omega
  obtain ⟨biased, hb⟩ : ∃ n : Nat, exponent = n - 1075 := ⟨(exponent + 1075).toNat, by omega⟩
  subst hb
  have hbiased : ((biased : Int) - 1075 + Format.binary64.exponentBias +
      Format.binary64.mantissaBitsWithoutImplicit).toNat = biased := by
    rw [show Format.binary64.exponentBias = 1023 from rfl,
      show Format.binary64.mantissaBitsWithoutImplicit = 52 from rfl]
    omega
  have hpack : (Float.Model.pack (.finite sign significand (biased - 1075) hpos)).toBits.toBitVec =
      packComponents .binary64 sign (BitVec.ofNat 11 biased) (BitVec.ofNat 52 significand) := by
    unfold Float.Model.pack UnpackedFloat.pack
    dsimp only
    rw [hbiased, if_neg (by omega)]
    exact if_pos hlog
  have hne : ∀ n, n < 2 ^ 11 → n ≠ biased → BitVec.ofNat 11 biased ≠ BitVec.ofNat 11 n := by
    intro n hn hnb h
    have := congrArg BitVec.toNat h
    rw [BitVec.toNat_ofNat, BitVec.toNat_ofNat, Nat.mod_eq_of_lt (by omega),
      Nat.mod_eq_of_lt hn] at this
    exact hnb this.symm
  unfold Float.Model.unpack
  rw [hpack]
  unfold UnpackedFloat.unpack
  simp only [unpackExponent_packComponents, unpackMantissa_packComponents,
    unpackSign_packComponents,
    Sign.ofBitVec_toBitVec]
  have hlast : BitVec.ofNat 11 biased ≠ -1#11 := hne 2047 (by decide) (by omega)
  rw [if_neg hlast, if_neg (hne 0 (by decide) (by omega))]
  congr 1
  · rw [toNat_hidden_append, BitVec.toNat_ofNat]
    unfold hiddenBit
    omega
  · rw [BitVec.toNat_ofNat, Nat.mod_eq_of_lt (by omega)]
    rfl

theorem unpack_pack_of_subnormal {significand : Nat} (hpos : 0 < significand)
    (hlt : significand < 2 ^ 52) (sign : Sign) :
    (Float.Model.pack (.finite sign significand (-1074) hpos)).unpack =
      .finite sign significand (-1074) hpos := by
  have hlog : significand.log2 + 1 ≠ 53 := by
    have := (Nat.log2_lt hpos.ne').2 hlt
    omega
  have hpack : (Float.Model.pack (.finite sign significand (-1074) hpos)).toBits.toBitVec =
      packComponents .binary64 sign 0#11 (BitVec.ofNat 52 significand) := by
    unfold Float.Model.pack UnpackedFloat.pack
    dsimp only
    rw [if_neg (by decide)]
    exact if_neg hlog
  have hmantissa : (BitVec.ofNat 52 significand).toNat = significand := by
    rw [BitVec.toNat_ofNat, Nat.mod_eq_of_lt hlt]
  have hne : BitVec.ofNat 52 significand ≠ 0#52 := by
    intro h
    rw [h] at hmantissa
    exact hpos.ne hmantissa
  unfold Float.Model.unpack
  rw [hpack]
  unfold UnpackedFloat.unpack
  simp only [unpackExponent_packComponents, unpackMantissa_packComponents,
    unpackSign_packComponents,
    Sign.ofBitVec_toBitVec]
  have hlast : (0#11 : BitVec 11) ≠ -1#11 := by decide
  rw [if_neg hlast, if_pos trivial, dif_neg hne]
  congr 1

theorem unpack_pack_of_canonical {significand : Nat} {exponent : Int}
    (h : Canonical significand exponent) (hmax : exponent ≤ 971) (sign : Sign) :
    (Float.Model.pack (.finite sign significand exponent h.pos)).unpack =
      .finite sign significand exponent h.pos := by
  by_cases hnormal : 2 ^ 52 ≤ significand
  · exact unpack_pack hnormal h.lt h.le hmax sign h.pos
  · obtain rfl := h.normal.resolve_left hnormal
    exact unpack_pack_of_subnormal h.pos (by omega) sign

theorem ofFloat_neg {x : Float} {negative : Bool} {significand : Nat} {exponent : Int}
    (h : ofFloat x = .finite negative significand exponent) (hpos : 0 < significand) :
    ofFloat (-x) = .finite (!negative) significand exponent := by
  obtain ⟨hc, hmax⟩ := canonical_of_ofFloat h hpos
  obtain ⟨sign, rfl⟩ : ∃ sign, isNegative sign = negative := by
    cases negative
    · exact ⟨.positive, rfl⟩
    · exact ⟨.negative, rfl⟩
  have hu : x.toModel.unpack = .finite sign significand exponent hpos :=
    ofUnpacked_injective ((ofUnpacked_unpack x).trans h)
  have hneg : (-x).toModel = Float.Model.pack (.finite (-sign) significand exponent hpos) := by
    show Float.Model.pack x.toModel.unpack.neg = _
    rw [hu]
    rfl
  have hsign : isNegative (-sign) = !isNegative sign := by cases sign <;> rfl
  rw [← hsign]
  exact ofFloat_of_unpack (by rw [hneg, unpack_pack_of_canonical hc hmax])

/-- A finite number is a number without a sign, and a sign. -/
theorem exists_unsigned {x : Float} {negative : Bool} {significand : Nat} {exponent : Int}
    (h : ofFloat x = .finite negative significand exponent) (hpos : 0 < significand) :
    ∃ y, ofFloat y = .finite false significand exponent ∧ x = if negative then -y else y := by
  cases negative with
  | false => exact ⟨x, h, rfl⟩
  | true =>
    have hy := ofFloat_neg h hpos
    exact ⟨-x, hy, ofFloat_injective (h.trans (ofFloat_neg hy hpos).symm)⟩

theorem unpack_toFloat {m : Nat} (hpos : 0 < m) (hm : m < 2 ^ 53) :
    ∃ (p : Nat) (q : Int) (hp : 0 < p),
    m.toUInt64.toFloat.toModel.unpack = .finite .positive p q hp ∧ 2 ^ 52 ≤ p ∧
    (p : ℚ) * 2 ^ q = m := by
  have hlog : m.log2 ≤ 52 := by
    have := (Nat.log2_lt hpos.ne').2 hm
    omega
  have hlow : 2 ^ 52 ≤ m <<< (52 - m.log2) := by
    rw [Nat.shiftLeft_eq]
    calc 2 ^ 52 = 2 ^ m.log2 * 2 ^ (52 - m.log2) := by rw [← pow_add]; congr 1; omega
      _ ≤ m * 2 ^ (52 - m.log2) := Nat.mul_le_mul_right _ (Nat.log2_self_le hpos.ne')
  have hhigh : m <<< (52 - m.log2) < 2 ^ 53 := by
    rw [Nat.shiftLeft_eq]
    calc m * 2 ^ (52 - m.log2) < 2 ^ (m.log2 + 1) * 2 ^ (52 - m.log2) :=
          Nat.mul_lt_mul_of_pos_right Nat.lt_log2_self (Nat.pow_pos (by decide))
      _ = 2 ^ 53 := by rw [← pow_add]; congr 1; omega
  have hp : 0 < m <<< (52 - m.log2) := by omega
  have hround : UnpackedFloat.round .binary64 .positive m 0 =
      .finite .positive (m <<< (52 - m.log2)) (m.log2 - 52) hp := by
    unfold UnpackedFloat.round decreaseExponent
    dsimp only
    have hk : (0 - Format.binary64.targetExponent (totalExponent m 0)).toNat = 52 - m.log2 := by
      rw [targetExponent_eq]
      omega
    rw [hk, roundWithAccuracy_of_lt hp hhigh (by omega)]
    congr 1
    omega
  have hmodel : m.toUInt64.toFloat.toModel = Float.Model.pack
      (UnpackedFloat.round .binary64 .positive m 0) := by
    have hnat : m.toUInt64.toNat = m := by
      rw [Nat.toUInt64_eq, UInt64.toNat_ofNat']
      omega
    show Float.Model.pack (UnpackedFloat.normalize .binary64 (m.toUInt64.toNat : Int) 0 .positive) =
        _
    rw [hnat]
    unfold UnpackedFloat.normalize
    rw [Int.compare_eq_gt.2 (by omega)]
    rfl
  refine ⟨m <<< (52 - m.log2), m.log2 - 52, hp, ?_, hlow, ?_⟩
  · rw [hmodel, hround, unpack_pack hlow hhigh (by omega) (by omega)]
  · have hzero : ((52 - m.log2 : Nat) : Int) + ((m.log2 : Int) - 52) = 0 := by omega
    rw [Nat.shiftLeft_eq]
    push_cast
    rw [mul_assoc, ← zpow_natCast, ← zpow_add₀ two_ne_zero, hzero, zpow_zero, mul_one]

theorem ofFloat_powerOfTen : ∀ e : Fin 23, ofFloat Float.exactlyRepresentablePowersOfTen[e] =
    .finite false (5 ^ e.val * 2 ^ (52 - Nat.log2 (5 ^ e.val)))
      (e.val + Nat.log2 (5 ^ e.val) - 52) := by
  decide +kernel

theorem unpack_powerOfTen {e : Nat} (h : e < Float.exactlyRepresentablePowersOfTen.size) :
    ∃ (p : Nat) (q : Int) (hp : 0 < p),
      Float.exactlyRepresentablePowersOfTen[e].toModel.unpack = .finite .positive p q hp ∧
        (p : ℚ) * 2 ^ q = 10 ^ e := by
  have hpos : 0 < 5 ^ e * 2 ^ (52 - Nat.log2 (5 ^ e)) := by positivity
  have hlog : ∀ e : Fin 23, Nat.log2 (5 ^ e.val) ≤ 52 := by decide
  have hlog : Nat.log2 (5 ^ e) ≤ 52 := hlog ⟨e, h⟩
  refine ⟨_, _, hpos, unpack_eq_of_ofFloat (ofFloat_powerOfTen ⟨e, h⟩) hpos, ?_⟩
  have hexponent : ((52 - Nat.log2 (5 ^ e) : Nat) : Int) + ((e : Int) + Nat.log2 (5 ^ e) - 52) =
      (e : Int) := by omega
  push_cast
  rw [mul_assoc, ← zpow_natCast 2, ← zpow_add₀ two_ne_zero, hexponent, zpow_natCast, ← mul_pow]
  norm_num

/-! ## Decimals -/

/-- The two ways in which a decimal is read. -/
theorem ofScientific_cases {m : Nat} (hm : 0 < m) (negative : Bool) (e : Nat) :
    (∃ (p : Nat) (q : Int) (hp : 0 < p) (p' : Nat) (q' : Int) (hp' : 0 < p'),
      2 ^ 52 ≤ p ∧ (p : ℚ) * 2 ^ q = m ∧ (p' : ℚ) * 2 ^ q' = 10 ^ e ∧
      Float.ofScientific m negative e = Float.ofModel (Float.Model.pack
        (if negative then UnpackedFloat.div .binary64 (.finite .positive p q hp)
          (.finite .positive p' q' hp')
        else UnpackedFloat.mul .binary64 (.finite .positive p q hp)
          (.finite .positive p' q' hp')))) ∨
    Float.ofScientific m negative e = Float.ofModel (Float.Model.pack
      (UnpackedFloat.ofScientific .binary64 m (if negative then -(e : Int) else e))) := by
  unfold Float.ofScientific
  split
  · rename_i hfast
    have hsize : e < Float.exactlyRepresentablePowersOfTen.size := Nat.lt_succ_of_le hfast.2
    obtain ⟨p, q, hp, hu, hle, hvalue⟩ := unpack_toFloat hm hfast.1
    obtain ⟨p', q', hp', hu', hvalue'⟩ := unpack_powerOfTen hsize
    refine .inl ⟨p, q, hp, p', q', hp', hle, hvalue, hvalue', ?_⟩
    rw [← hu, ← hu']
    cases negative <;> rfl
  · refine .inr ?_
    have hpower : (if negative = true then Int.negOfNat e else Int.ofNat e) = if negative then
        -(e : Int) else e := by
      split
      · exact Int.negOfNat_eq
      · rfl
    rw [← hpower]
    rfl

/-- What is read has no sign. -/
theorem isUnsigned_ofScientific {m : Nat} (hm : 0 < m) (negative : Bool) (e : Nat) :
    (ofFloat (Float.ofScientific m negative e)).isUnsigned = true := by
  rcases ofScientific_cases hm negative e with ⟨p, q, hp, p', q', hp', -, -, -, heq⟩ | heq
  · rw [heq]
    refine isUnsigned_pack ?_
    cases negative
    · exact signOf_roundWithAccuracy ..
    · exact signOf_roundWithAccuracy ..
  · rw [heq]
    exact isUnsigned_pack (signOf_ofScientific ..)

section
variable {significand : Nat} {exponent : Int} (hc : Canonical significand exponent)
  (hmax : exponent ≤ 971)
include hc hmax

theorem range_of_contains {x : ℚ} (hcell : (Cell.of significand exponent).Contains x) :
    2 ^ (-1075 : Int) ≤ x ∧ x ≤ 2 ^ (1024 : Int) := by
  have h2 : (0 : ℚ) < 2 ^ exponent := zpow_pos (by norm_num) _
  obtain ⟨hlow, hup, -⟩ := bounds_of_contains hc hcell
  have hone : (1 : ℚ) ≤ significand := by exact_mod_cast hc.pos
  have hlt : (significand : ℚ) + 1 ≤ 2 ^ (53 : Int) := by exact_mod_cast hc.lt
  rw [div_le_iff₀ h2] at hup
  constructor
  · calc (2 : ℚ) ^ (-1075 : Int) = 2 ^ (-1 : Int) * 2 ^ (-1074 : Int) := by
          rw [← zpow_add₀ two_ne_zero]; rfl
      _ ≤ 2 ^ (-1 : Int) * 2 ^ exponent :=
        mul_le_mul_of_nonneg_left (zpow_le_zpow_right₀ (by norm_num) hc.le) (by positivity)
      _ ≤ x / 2 ^ exponent * 2 ^ exponent :=
        mul_le_mul_of_nonneg_right (by norm_num; linarith) h2.le
      _ = x := div_mul_cancel₀ _ h2.ne'
  · calc x ≤ (significand + 1 / 2) * 2 ^ exponent := hup
      _ ≤ 2 ^ (53 : Int) * 2 ^ (971 : Int) :=
        mul_le_mul (by linarith) (zpow_le_zpow_right₀ (by norm_num) hmax) h2.le (by positivity)
      _ = 2 ^ (1024 : Int) := (zpow_add₀ two_ne_zero _ _).symm

/-- The bounds at which a decimal is given up are beyond the range. -/
theorem decimal_exponent_bounds {m : Nat} (hm : 0 < m) {e : Int}
    (hcell : (Cell.of significand exponent).Contains (m * 10 ^ e)) :
    (0 ≤ e → e ≤ 1024) ∧ (e < 0 → -1075 ≤ (m.log2 : Int) + 1 + e) := by
  obtain ⟨hlow, hup⟩ := range_of_contains hc hmax hcell
  have h10 : (0 : ℚ) < 10 ^ e := zpow_pos (by norm_num) _
  refine ⟨fun he => ?_, fun he => ?_⟩
  · have hone : (1 : ℚ) ≤ m := by exact_mod_cast hm
    have hpow : (2 : ℚ) ^ e ≤ 2 ^ (1024 : Int) := by
      calc (2 : ℚ) ^ e ≤ 10 ^ e := zpow_le_zpow_left₀ he (by norm_num) (by norm_num)
        _ ≤ m * 10 ^ e := le_mul_of_one_le_left h10.le hone
        _ ≤ _ := hup
    exact (zpow_le_zpow_iff_right₀ (by norm_num)).1 hpow
  · have hlog : (m : ℚ) ≤ 2 ^ ((m.log2 : Int) + 1) := by exact_mod_cast Nat.lt_log2_self.le
    have hten : (10 : ℚ) ^ e ≤ 2 ^ e := by
      have hneg : (2 : ℚ) ^ (-e) ≤ 10 ^ (-e) :=
        zpow_le_zpow_left₀ (by omega) (by norm_num) (by norm_num)
      rw [zpow_neg, zpow_neg] at hneg
      exact (inv_le_inv₀ (zpow_pos (by norm_num) _) h10).1 hneg
    have hpow : (2 : ℚ) ^ (-1075 : Int) ≤ 2 ^ ((m.log2 : Int) + 1 + e) := by
      calc (2 : ℚ) ^ (-1075 : Int) ≤ m * 10 ^ e := hlow
        _ ≤ 2 ^ ((m.log2 : Int) + 1) * 2 ^ e := mul_le_mul hlog hten h10.le (by positivity)
        _ = _ := (zpow_add₀ two_ne_zero _ _).symm
    exact (zpow_le_zpow_iff_right₀ (by norm_num)).1 hpow

theorem unpacked_ofScientific_eq {m : Nat} (hm : 0 < m) {e : Int}
    (hcell : (Cell.of significand exponent).Contains (m * 10 ^ e)) :
    UnpackedFloat.ofScientific .binary64 m e = .finite .positive significand exponent hc.pos := by
  obtain ⟨hle, hge⟩ := decimal_exponent_bounds hc hmax hm hcell
  have hbits : (2 : Int) ^ Format.binary64.exponentBits = 2048 := rfl
  have hmantissa : Format.binary64.mantissaBits = 53 := rfl
  unfold UnpackedFloat.ofScientific
  rw [dif_neg hm.ne', hbits, if_neg (by omega), if_neg (by omega)]
  by_cases he : 0 ≤ e
  · rw [if_pos he]
    obtain ⟨n, rfl⟩ := Int.eq_ofNat_of_zero_le he
    refine mul_eq hc _ _ ?_ ?_
    · convert hcell using 1
      rw [hmantissa, Int.toNat_natCast, Nat.shiftLeft_eq, zpow_neg, zpow_zero, zpow_natCast,
        zpow_natCast]
      push_cast
      field_simp
      norm_num
    · rw [Nat.shiftLeft_eq, hmantissa]
      calc 2 ^ 52 ≤ m * 2 ^ 53 := by omega
        _ ≤ m * 2 ^ 53 * 10 ^ (n : Int).toNat := Nat.le_mul_of_pos_right _ (Nat.pow_pos (by decide))
  · rw [if_neg he]
    refine div_eq hc _ _ ?_
    convert hcell using 1
    rw [zpow_zero, mul_one, mul_one, Nat.cast_pow, ← zpow_natCast, Int.toNat_of_nonneg (by omega),
      zpow_neg, div_inv_eq_mul]
    rfl

end

/-- What is read from a decimal inside of the cell of a number is the number. -/
theorem ofScientific_eq {x : Float} {significand : Nat} {exponent : Int}
    (hx : ofFloat x = .finite false significand exponent) (hpos : 0 < significand) {m : Nat}
    (hm : 0 < m) {negative : Bool} {e : Nat}
    (hcell : (Cell.of significand exponent).Contains
      (m * 10 ^ (if negative then -(e : Int) else e))) :
    Float.ofScientific m negative e = x := by
  obtain ⟨hc, hmax⟩ := canonical_of_ofFloat hx hpos
  have hpack : Float.ofModel (Float.Model.pack (.finite .positive significand exponent hc.pos)) =
      x := by
    rw [← unpack_eq_of_ofFloat hx hpos, pack_unpack]
  rcases ofScientific_cases hm negative e with ⟨p, q, hp, p', q', hp', hle, hvalue, hvalue', heq⟩ |
    heq
  · rw [heq]
    cases negative with
    | true =>
      have hquotient : (Cell.of significand exponent).Contains (p * 2 ^ q / (p' * 2 ^ q')) := by
        rw [hvalue, hvalue', ← zpow_natCast, div_eq_mul_inv, ← zpow_neg]
        exact hcell
      rw [if_pos rfl, div_eq hc hp hp' hquotient, hpack]
    | false =>
      have hproduct : (Cell.of significand exponent).Contains (p * 2 ^ q * (p' * 2 ^ q')) := by
        rw [hvalue, hvalue', ← zpow_natCast]
        exact hcell
      rw [if_neg (by simp), mul_eq hc hp hp' hproduct
        (le_trans hle (Nat.le_mul_of_pos_right p hp')), hpack]
  · rw [heq, unpacked_ofScientific_eq hc hmax hm hcell, hpack]

theorem ofNat_eq {m : Nat} (hm : m < 2 ^ 53) : Float.ofNat m = m.toUInt64.toFloat := by
  rcases Nat.eq_zero_or_pos m with rfl | hpos
  · decide +kernel
  · obtain ⟨p, q, hp, hu, -, hvalue⟩ := unpack_toFloat hpos hm
    have hcentre := contains_centre hp q
    have hcell : (Cell.of p q).Contains
        (m * 10 ^ (if (false : Bool) then -((0 : Nat) : Int) else ((0 : Nat) : Int))) := by
      simpa [hvalue] using hcentre
    exact ofScientific_eq (ofFloat_of_unpack hu) hp hpos hcell

end Reckoner.Binary64
