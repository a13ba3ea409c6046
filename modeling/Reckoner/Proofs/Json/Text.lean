import Reckoner.Json.Printer
import Reckoner.Json.Token

/-!
# Texts in JSON

A text that is written in quotes is read back, character by character: an escape stands for one
character, and no character of a text is a surrogate.
-/

namespace Reckoner.Json

/-! ## One character -/

theorem hexValue?_hex4_of_lt : ∀ {n : Nat}, n < 0x20 → Text.hexValue? (hex4 n) = some n := by decide

theorem points?_escape (seen : List Nat) (c : Char) (cs : List Char) :
    points? seen (escape c ++ cs) = points? (c.toNat :: seen) cs := by
  unfold escape
  split
  case h_8 hq hb _ _ _ _ _ =>
    by_cases hc : c.toNat < 0x20
    · rw [if_pos hc]
      have hx := hexValue?_hex4_of_lt hc
      simp only [hex4, List.map_cons, List.map_nil] at hx
      simp only [hex4, List.map_cons, List.map_nil, List.cons_append, List.nil_append, points?, hx]
    · rw [if_neg hc, List.singleton_append, points?]
      · rw [if_neg hc]
      · exact hq
      · exact fun _ _ _ _ _ e => absurd e hb
      · exact fun _ _ e => absurd e hb
  all_goals rfl

theorem textOf?_of_points (seen : List Char) (c : Char) (points : List Nat) :
    textOf? seen (c.toNat :: points) = textOf? (c :: seen) points := by
  have hc : isHighSurrogate c.toNat = false ∧ isLowSurrogate c.toNat = false := by
    have hv := c.valid
    simp only [isHighSurrogate, isLowSurrogate, Char.toNat, Bool.and_eq_false_iff,
      decide_eq_false_iff_not]
    simp only [UInt32.isValidChar, Nat.isValidChar] at hv
    omega
  cases points with
  | nil => simp [textOf?, hc, Char.ofNat_toNat]
  | cons n rest => simp [textOf?, hc, Char.ofNat_toNat]

/-! ## Texts -/

theorem points?_flatMap_escape (rest cs : List Char) (seen : List Nat) :
    points? seen (cs.flatMap escape ++ '"' :: rest) =
      some (seen.reverse ++ cs.map Char.toNat, rest) := by
  induction cs generalizing seen with
  | nil => simp [points?]
  | cons c cs ih => simp [points?_escape, ih]

theorem textOf?_map_toNat (cs seen : List Char) :
    textOf? seen (cs.map Char.toNat) = some (String.ofList (seen.reverse ++ cs)) := by
  induction cs generalizing seen with
  | nil => simp [textOf?]
  | cons c cs ih => simp [textOf?_of_points, ih]

theorem token?_quote (s : Option String) (rest : List Char) :
    token? (quote s ++ rest) = some (.string s, rest) := by
  cases s with
  | none => rfl
  | some s =>
    have hp := points?_flatMap_escape rest s.toList []
    have ht := textOf?_map_toNat s.toList []
    simp only [List.reverse_nil, List.nil_append, String.ofList_toList] at hp ht
    simp [quote, token?, hp, ht]

end Reckoner.Json
