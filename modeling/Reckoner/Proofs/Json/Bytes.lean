import Reckoner.Json.Bytes
import Mathlib.Tactic.Common

/-!
# JSON in bytes

The bytes of a text are read as the text. Where bytes are none of a text, nothing is read but texts
in quotes, and these are no texts.
-/

namespace Reckoner.Json

/-! ## Bytes of a text -/

theorem charsFrom_append_utf8Encode (cs : List Char) :
    ∀ (before : ByteArray) (fuel : Nat), cs.utf8Encode.size ≤ fuel →
    charsFrom (before ++ cs.utf8Encode) fuel before.size = cs := by
  induction cs with
  | nil =>
    intro before fuel _
    cases fuel with
    | zero => rfl
    | succ fuel => simp [charsFrom]
  | cons c cs ih =>
    intro before fuel hf
    have hcons : (c :: cs).utf8Encode = [c].utf8Encode ++ cs.utf8Encode := by
      rw [← List.singleton_append, List.utf8Encode_append]
    have hsize : [c].utf8Encode.size = c.utf8Size := by simp [List.utf8Encode_singleton]
    have hpos := c.utf8Size_pos
    have hall : (before ++ (c :: cs).utf8Encode).size =
        before.size + (c.utf8Size + cs.utf8Encode.size) := by
      rw [hcons, ByteArray.size_append, ByteArray.size_append, hsize]
    rw [hcons, ByteArray.size_append, hsize] at hf
    obtain ⟨fuel, rfl⟩ := Nat.exists_eq_add_one.2 (show 0 < fuel by omega)
    have hdecode : (before ++ (c :: cs).utf8Encode).utf8DecodeChar? before.size = some c := by
      rw [ByteArray.utf8DecodeChar?_eq_utf8DecodeChar?_extract, ByteArray.size_append,
        ByteArray.extract_append_eq_right rfl rfl, List.utf8DecodeChar?_utf8Encode_cons]
    have hrest := ih (before ++ [c].utf8Encode) fuel (by omega)
    rw [ByteArray.append_assoc, ← hcons, ByteArray.size_append, hsize] at hrest
    unfold charsFrom
    rw [if_pos (by omega), hdecode]
    exact congrArg (c :: ·) hrest

theorem parseBytes?_toByteArray (text : String) : parseBytes? text.toByteArray = parse? text := by
  have h := charsFrom_append_utf8Encode text.toList ByteArray.empty _ (Nat.le_refl _)
  rw [ByteArray.empty_append, String.utf8Encode_toList, ByteArray.size_empty] at h
  unfold parseBytes? parse?
  rw [h]

/-! ## Stray bytes -/

theorem exists_points?_eq (seen : List Nat) (cs : List Char) {points : List Nat} {rest : List Char}
    (h : points? seen cs = some (points, rest)) : ∃ more, points = seen.reverse ++ more := by
  fun_induction points? seen cs with
  | case1 => cases h
  | case2 =>
    cases h
    exact ⟨[], by simp⟩
  | case3 _ _ _ _ _ _ n _ ih =>
    obtain ⟨more, rfl⟩ := ih h
    exact ⟨n :: more, by simp⟩
  | case4 => cases h
  | case5 _ _ _ _ n _ ih =>
    obtain ⟨more, rfl⟩ := ih h
    exact ⟨n :: more, by simp⟩
  | case6 => cases h
  | case7 => cases h
  | case8 _ c _ _ _ _ _ ih =>
    obtain ⟨more, rfl⟩ := ih h
    exact ⟨c.toNat :: more, by simp⟩

/-- The surrogate of a stray byte has no partner. -/
theorem textOf?_stray (after : List Nat) : ∀ (before : List Nat) (seen : List Char),
    textOf? seen (before ++ 0x78 :: 0xD800 :: 0x20 :: after) = none
  | [], seen => by simp [textOf?, isHighSurrogate, isLowSurrogate]
  | [n], seen => by
    show (if isHighSurrogate n then none else if isLowSurrogate n then none else _) = none
    split
    · rfl
    split
    · rfl
    · exact textOf?_stray after [] _
  | n :: m :: before, seen => by
    show (if isHighSurrogate n then if isLowSurrogate m then _ else none
      else if isLowSurrogate n then none else _) = none
    split
    · split
      · exact textOf?_stray after before _
      · rfl
    split
    · rfl
    · exact textOf?_stray after (m :: before) _

/-- A stray byte is no token and no escape, and a text in quotes around it is none. -/
theorem spoiled_by_stray (seen : List Nat) (rest : List Char) :
    token? (stray ++ rest) = none ∧ points? seen ('\\' :: (stray ++ rest)) = none ∧
      ∀ points after, points? seen (stray ++ rest) = some (points, after) →
        textOf? [] points = none := by
  refine ⟨rfl, rfl, fun points after h => ?_⟩
  have hseen : points? seen (stray ++ rest) = points? (0x20 :: 0xD800 :: 0x78 :: seen) rest := rfl
  rw [hseen] at h
  obtain ⟨more, rfl⟩ := exists_points?_eq _ _ h
  simp only [List.reverse_cons, List.append_assoc, List.cons_append, List.nil_append]
  exact textOf?_stray more seen.reverse []

end Reckoner.Json
