import Reckoner.Proofs.Decimal.Nearest
import Reckoner.Proofs.Id
import Reckoner.Proofs.Json.Number
import Reckoner.Wire.Message

/-!
# How long a number is

The digits of the shortest decimal, and its exponent, are bounded as the binary numbers are. The
bounds are wide, as nothing is asked of them but that a text with one number in it is not a long
one.
-/

namespace Reckoner

namespace Decimal

open Binary64

theorem neg_le_magnitude {significand k : Nat} (hpos : 0 < significand) (hk : 0 < k)
    {exponent : Int} (h : -(k : Int) ≤ exponent) : -(k : Int) ≤ magnitude significand exponent := by
  unfold magnitude
  simp only [Nat.pow_eq]
  have hexponent : (-exponent).toNat ≤ k := by omega
  have hden : 2 ^ (-exponent).toNat ≤ 2 ^ k := Nat.pow_le_pow_right (by decide) hexponent
  have hnum : 0 < significand * 2 ^ exponent.toNat := Nat.mul_pos hpos (Nat.pow_pos (by decide))
  generalize significand * 2 ^ exponent.toNat = num at *
  generalize 2 ^ (-exponent).toNat = den at *
  split
  · have : 0 < width (num / den) := Nat.length_toDigits_pos
    omega
  · have hceil : (den + num - 1) / num - 1 < 10 ^ k := by
      calc (den + num - 1) / num - 1 = (den - 1) / num := by
            rw [show den + num - 1 = den - 1 + num by omega, Nat.add_div_right _ hnum,
              Nat.succ_sub_one]
        _ ≤ den := le_trans (Nat.div_le_self _ _) (Nat.sub_le _ _)
        _ ≤ 2 ^ k := hden
        _ < 10 ^ k := Nat.pow_lt_pow_left (by decide) hk.ne'
    have : width ((den + num - 1) / num - 1) ≤ k :=
      (Nat.length_toDigits_le_iff (by decide) hk).2 hceil
    omega

/-- The grid on which the shortest decimal is found is not finer than seventeen digits ask for. -/
theorem neg_le_exponent_shortest (tie : Tie) {significand : Nat} (hpos : 0 < significand)
    {exponent : Int} (h : -1074 ≤ exponent) :
    -1090 ≤ (shortest tie significand exponent).exponent := by
  have htop := neg_le_magnitude hpos (by decide : 0 < 1074) h
  unfold shortest
  dsimp only
  refine le_trans ?_ (le_exponent_stripZeros _ _)
  generalize hf : List.findSome? _ (List.range 17) = found
  cases found with
  | none => exact le_trans (by omega) h
  | some d =>
    obtain ⟨places, hplaces, hp⟩ := List.exists_of_findSome?_eq_some hf
    obtain ⟨digits, -, rfl⟩ := Option.map_eq_some_iff.1 hp
    have := List.mem_range.1 hplaces
    show -1090 ≤ magnitude significand exponent - places
    omega

theorem shortest_bounds (tie : Tie) {significand : Nat} {exponent : Int}
    (hc : Canonical significand exponent) (hmax : exponent ≤ 971) :
    (shortest tie significand exponent).exponent.natAbs ≤ 1090 ∧
      width (shortest tie significand exponent).digits ≤ 2200 := by
  have hdigits := shortest_ne_zero tie hc.pos.ne' exponent
  have hlow := neg_le_exponent_shortest tie hc.pos hc.le
  have hup := (range_of_contains hc hmax (shortest_contains tie hc)).2
  generalize shortest tie significand exponent = d at *
  have hwidth : 0 < width d.digits := Nat.length_toDigits_pos
  have hlarge : (10 : ℚ) ^ (d.exponent + (width d.digits - 1 : Nat)) < 10 ^ (1024 : Int) := by
    have hpow : (10 : ℚ) ^ (width d.digits - 1) ≤ d.digits := by exact_mod_cast pow_width_le hdigits
    calc (10 : ℚ) ^ (d.exponent + (width d.digits - 1 : Nat))
        = 10 ^ (width d.digits - 1) * 10 ^ d.exponent := by
            rw [zpow_add₀ (by norm_num), zpow_natCast, mul_comm]
      _ ≤ d.digits * 10 ^ d.exponent :=
        mul_le_mul_of_nonneg_right hpow (zpow_pos (by norm_num) _).le
      _ ≤ 2 ^ (1024 : Int) := hup
      _ < 10 ^ (1024 : Int) := zpow_lt_zpow_left₀ (by decide) (by norm_num) (by norm_num)
  have hlarge := (zpow_lt_zpow_iff_right₀ (by norm_num)).1 hlarge
  omega

end Decimal

/-! ## Numerals -/

theorem length_toDigits_le (n : Nat) : (Nat.toDigits 10 n).length ≤ n + 1 :=
  (Nat.length_toDigits_le_iff (by decide) n.succ_pos).2
    (Nat.lt_trans n.lt_succ_self (Nat.lt_pow_self (by decide)))

theorem Numeral.length_text (n : Numeral) : n.text.toList.length ≤
    n.whole.length + n.fraction.length + (n.exponent.elim 0 fun e => e.2.length + 2) + 2 := by
  have hsign : (if n.negative then ['-'] else []).length ≤ 1 := by split <;> simp
  have hfraction : n.fractionPart.length ≤ n.fraction.length + 1 := by
    unfold fractionPart
    split <;> simp
  have hexponent : n.exponentPart.length = n.exponent.elim 0 fun e => e.2.length + 2 := by
    unfold exponentPart
    cases n.exponent <;> rfl
  rw [n.toList_text]
  simp only [List.length_append]
  omega

namespace Layout

theorem length_split (digits : List Char) (exponent : Int) :
    (split digits exponent).1.length + (split digits exponent).2.length ≤
      digits.length + exponent.natAbs + 1 := by
  unfold split
  split
  · simp only [List.length_append, List.length_replicate, List.length_nil]
    omega
  · dsimp only
    split
    · simp only [List.splitAt_eq, List.length_take, List.length_drop]
      omega
    · simp only [List.length_cons, List.length_nil, List.length_append, List.length_replicate]
      omega

theorem length_text_arrange (layout : Layout) (negative : Bool) (d : Decimal) :
    (layout.arrange negative d).text.toList.length ≤ 2 * Decimal.width d.digits +
      d.exponent.natAbs + 7 := by
  have hwidth : (Nat.toDigits 10 d.digits).length = Decimal.width d.digits := rfl
  refine le_trans (Numeral.length_text _) ?_
  unfold arrange
  dsimp only
  split
  · have hsplit := length_split (Nat.toDigits 10 d.digits) d.exponent
    generalize split (Nat.toDigits 10 d.digits) d.exponent = p at *
    have hfraction : (if layout.showsFraction && p.2.isEmpty then ['0'] else p.2).length ≤
        p.2.length + 1 := by
      split <;> simp
    simp only [Option.elim_none]
    omega
  · have hexponent := length_toDigits_le (d.exponent + (Nat.toDigits 10 d.digits).length - 1).natAbs
    simp only [List.length_take, List.length_drop, Option.elim_some]
    omega

theorem length_numeral {layout : Layout} {x : Float} {n : Numeral}
    (h : layout.numeral? x = some n) : n.text.toList.length ≤ 6000 := by
  unfold numeral? at h
  split at h
  · cases h
  · cases h
  · cases h
    exact le_trans (length_text_arrange _ _ _) (by decide)
  · rename_i hne hx
    cases h
    obtain ⟨hc, hmax⟩ := Binary64.canonical_of_ofFloat hx (Nat.pos_of_ne_zero hne)
    obtain ⟨hexponent, hwidth⟩ := Decimal.shortest_bounds layout.tie hc hmax
    exact le_trans (length_text_arrange _ _ _) (by omega)

end Layout

namespace Json

theorem size_utf8Encode_le (cs : List Char) : cs.utf8Encode.size ≤ 4 * cs.length := by
  induction cs with
  | nil => simp
  | cons c cs ih =>
    have hc : [c].utf8Encode.size ≤ 4 := by
      simpa [List.utf8Encode_singleton] using c.utf8Size_le_four
    rw [← List.singleton_append, List.utf8Encode_append, ByteArray.size_append, List.length_append]
    simp only [List.length_singleton]
    omega

theorem length_chars_ofFloat (x : Float) : (ofFloat x).chars.length ≤ 6000 := by
  unfold ofFloat
  cases h : Layout.json.numeral? x with
  | none => decide
  | some n => exact Layout.length_numeral h

theorem length_escape_le (c : Char) : (escape c).length ≤ 6 := by
  unfold escape
  split
  case h_8 => split <;> simp [hex4]
  all_goals simp

theorem length_quote_le (s : String) : (quote (some s)).length ≤ 6 * s.toList.length + 2 := by
  have hall : ∀ cs : List Char, (cs.flatMap escape).length ≤ 6 * cs.length := by
    intro cs
    induction cs with
    | nil => simp
    | cons c cs ih =>
      have := length_escape_le c
      rw [List.flatMap_cons, List.length_append, List.length_cons]
      omega
  have := hall s.toList
  simp only [quote, List.length_cons, List.length_append, List.length_nil]
  omega

end Json

namespace Wire

theorem size_render_record (id : TaskId) (name : String) (value : Json) :
    (Json.record [("id", encode id), (name, value)]).render.toByteArray.size ≤
      4 * (6 * name.toList.length + value.chars.length + 230) := by
  have hchars : (Json.record [("id", encode id), (name, value)]).chars =
      '\x7b' :: Json.quote (some "id") ++ ':' :: Json.quote (some id.text) ++
        (',' :: Json.quote (some name) ++ ':' :: value.chars ++ ['\x7d']) := rfl
  have hid := Json.length_quote_le id.text
  have hname := Json.length_quote_le name
  have hlength : id.text.toList.length = 36 := id.uuid.length_text
  have hlabel : (Json.quote (some "id")).length = 4 := by decide
  unfold Json.render
  rw [String.toByteArray_ofList]
  refine le_trans (Json.size_utf8Encode_le _) (Nat.mul_le_mul_left 4 ?_)
  rw [hchars]
  simp only [List.length_cons, List.length_append, List.length_nil]
  omega

theorem size_write_completed (id : TaskId) (v : Float) :
    (write (TaskResult.completed id v)).toByteArray.size ≤ 4 * 6266 := by
  have hname : "result".toList.length = 6 := by decide
  have hnumber := Json.length_chars_ofFloat v
  have hsize := size_render_record id "result" (encode v)
  rw [hname] at hsize
  exact le_trans hsize
    (Nat.mul_le_mul_left 4 (show 6 * 6 + (Json.ofFloat v).chars.length + 230 ≤ 6266 by omega))

theorem size_write_failed (id : TaskId) (message : String) :
    (write (TaskResult.failed id message)).toByteArray.size ≤
      4 * (6 * message.toList.length + 262) := by
  have hname : "error".toList.length = 5 := by decide
  have hmessage := Json.length_quote_le message
  have hsize := size_render_record id "error" (encode message)
  rw [hname] at hsize
  refine le_trans hsize (Nat.mul_le_mul_left 4 ?_)
  show 6 * 5 + (Json.quote (some message)).length + 230 ≤ _
  omega

end Wire

end Reckoner
