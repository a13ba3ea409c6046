import Reckoner.Id
import Mathlib.Algebra.Order.Ring.Nat

/-!
# Identifiers as text

An identifier is read back from its text. Hyphens go where they are looked for, and 32 hexadecimal
digits are worth 128 bits.
-/

namespace Reckoner

namespace Text

theorem hexDigit?_digitChar : ∀ {d : Nat}, d < 16 →
    hexDigit? (Nat.digitChar d) = some d := by decide

theorem hexValue?_append_digitChar {cs : List Char} {n d : Nat} (h : hexValue? cs = some n)
    (hd : d < 16) : hexValue? (cs ++ [Nat.digitChar d]) = some (16 * n + d) := by
  unfold hexValue? at h ⊢
  rw [List.foldlM_append, h]
  simp [hexDigit?_digitChar hd]

theorem hexValue?_digits (k : Nat) : ∀ n : Nat,
    hexValue? ((List.range k).map fun i => Nat.digitChar (n >>> (4 * (k - 1 - i)) % 16)) =
      some (n % 16 ^ k) := by
  induction k with
  | zero =>
    intro n
    simp [hexValue?, Nat.mod_one]
  | succ k ih =>
    intro n
    have hprefix : (List.range k).map (fun i => Nat.digitChar (n >>> (4 * (k + 1 - 1 - i)) % 16)) =
        (List.range k).map fun i => Nat.digitChar ((n >>> 4) >>> (4 * (k - 1 - i)) % 16) := by
      apply List.map_congr_left
      intro i hi
      have hi := List.mem_range.1 hi
      rw [← Nat.shiftRight_add]
      congr 3
      omega
    have hvalue := hexValue?_append_digitChar (ih (n >>> 4)) (Nat.mod_lt n (by decide : 0 < 16))
    rw [List.range_succ, List.map_append, hprefix]
    simp only [List.map_cons, List.map_nil, Nat.add_sub_cancel, Nat.sub_self, Nat.mul_zero,
      Nat.shiftRight_zero]
    have hmod : n % 16 ^ (k + 1) = n % 16 + 16 * (n / 16 % 16 ^ k) := by
      rw [Nat.pow_succ', Nat.mod_mul]
    rw [hvalue, hmod, Nat.shiftRight_eq_div_pow, Nat.add_comm]

end Text

namespace Uuid

theorem length_digits (u : Uuid) : u.digits.length = 32 := by simp [digits]

theorem ofDigits?_digits (u : Uuid) : ofDigits? u.digits = some u := by
  have hv : Text.hexValue? u.digits = some (u.bits.toNat % 16 ^ 32) :=
    Text.hexValue?_digits 32 u.bits.toNat
  have hlt : u.bits.toNat % 16 ^ 32 = u.bits.toNat := Nat.mod_eq_of_lt u.bits.isLt
  rw [ofDigits?, if_pos u.length_digits, hv, hlt, Option.map_some, BitVec.ofNat_toNat,
    BitVec.setWidth_eq]

/-! ## Hyphens -/

theorem ungroup?_group {n : Nat} {ns : List Nat} {cs : List Char} (h : cs.length = (n :: ns).sum) :
    ungroup? (n :: ns) (group (n :: ns) cs) = some cs := by
  induction ns generalizing n cs with
  | nil =>
    have hn : cs.length = n := by simpa using h
    simp [group, ungroup?, hn]
  | cons m ns ih =>
    rw [List.sum_cons] at h
    have hl : (cs.take n).length = n := by
      rw [List.length_take]
      omega
    have hd : (cs.drop n).length = (m :: ns).sum := by
      rw [List.length_drop]
      omega
    simp only [group, ungroup?]
    rw [List.drop_left' hl, List.take_left' hl]
    simp only [ih hd, Option.map_some, List.take_append_drop]

theorem length_group {n : Nat} {ns : List Nat} {cs : List Char} (h : cs.length = (n :: ns).sum) :
    (group (n :: ns) cs).length = cs.length + ns.length := by
  induction ns generalizing n cs with
  | nil => rfl
  | cons m ns ih =>
    rw [List.sum_cons] at h
    have hd : (cs.drop n).length = (m :: ns).sum := by
      rw [List.length_drop]
      omega
    simp only [group, List.length_append, List.length_cons, ih hd, List.length_take]
    omega

theorem length_group_digits (u : Uuid) : (group groups u.digits).length = 36 := by
  rw [groups, length_group u.length_digits, u.length_digits]
  rfl

theorem length_text (u : Uuid) : u.text.toList.length = 36 := by
  rw [text, String.toList_ofList, length_group_digits]

/-- The text begins with a digit, so with neither a brace nor the scheme of a URN. -/
theorem parse?_text (u : Uuid) : parse? u.text = some u := by
  have hl : u.digits.length = (groups).sum := u.length_digits
  have hgroup : ofHyphenated? (group groups u.digits) = some u := by
    rw [ofHyphenated?, groups, ungroup?_group hl, Option.bind_some, ofDigits?_digits]
  have hplain : ofDigits? (group groups u.digits) = none := by
    rw [ofDigits?, u.length_group_digits, if_neg (by decide)]
  obtain ⟨d, cs, hd, hcs⟩ : ∃ d cs, d < 16 ∧ group groups u.digits = Nat.digitChar d :: cs :=
    ⟨_, _, Nat.mod_lt _ (by decide), rfl⟩
  have hne : ∀ d < 16, Nat.digitChar d ≠ '\x7b' ∧ Nat.digitChar d ≠ 'u' := by decide
  have hurn : urnScheme.isPrefixOf (group groups u.digits) = false := by
    rw [hcs]
    show ('u' == Nat.digitChar d && _) = false
    simp [Ne.symm (hne d hd).2]
  unfold parse? text
  rw [String.toList_ofList]
  dsimp only
  split
  · rename_i e
    rw [hcs] at e
    exact absurd (List.cons.inj e).1 (hne d hd).1
  · simp [hurn, hplain, hgroup]

end Uuid

theorem Id.parse?_text {kind : IdKind} (id : Id kind) : Id.parse? id.text = some id := by
  rw [Id.parse?, Id.text, Uuid.parse?_text, Option.map_some]

end Reckoner
