import Reckoner.Json.Number
import Reckoner.Json.Token
import Reckoner.Proofs.Decimal.Layout
import Mathlib.Data.List.TakeDrop

/-!
# Numbers in JSON

A numeral of the form that JSON asks for is read back as it is written, digit by digit, when what
follows cannot be part of it. The numerals that are written for numbers have this form.
-/

namespace Reckoner

namespace Numeral

def fractionPart (n : Numeral) : List Char := if n.fraction = [] then [] else '.' :: n.fraction

def exponentPart (n : Numeral) : List Char :=
  match n.exponent with
  | none => []
  | some (negative, digits) => 'e' :: (if negative then '-' else '+') :: digits

theorem toList_text (n : Numeral) : n.text.toList =
    (if n.negative then ['-'] else []) ++ (n.whole ++ (n.fractionPart ++ n.exponentPart)) := by
  simp only [text, String.toList_ofList, List.append_assoc]
  rfl

theorem Regular.exists_text_eq_cons {n : Numeral} (h : n.Regular) :
    ∃ c cs, n.text.toList = c :: cs ∧ (c = '-' ∨ c.isDigit = true) := by
  rw [n.toList_text]
  cases n.negative with
  | true => exact ⟨'-', _, rfl, .inl rfl⟩
  | false =>
    cases hw : n.whole with
    | nil => exact absurd hw h.whole_ne_nil
    | cons d ds => exact ⟨d, _, rfl, .inr (h.whole d (by simp [hw]))⟩

end Numeral

namespace Json

/-! ## Reading -/

def EndsNumber (rest : List Char) : Prop :=
  ∀ c cs, rest = c :: cs → c.isDigit = false ∧ c ≠ '.' ∧ c ≠ 'e' ∧ c ≠ 'E'

theorem span_isDigit {ds rest : List Char} (hd : ∀ c ∈ ds, c.isDigit = true)
    (hr : ∀ c cs, rest = c :: cs → c.isDigit = false) :
    (ds ++ rest).span Char.isDigit = (ds, rest) := by
  rw [List.span_eq_takeWhile_dropWhile, List.takeWhile_append_of_pos hd,
    List.dropWhile_append_of_pos hd]
  cases rest with
  | nil => simp
  | cons c cs => simp [hr c cs rfl]

theorem whole?_append {ds rest : List Char} (hn : ds ≠ []) (hd : ∀ c ∈ ds, c.isDigit = true)
    (hz : ∀ cs, ds = '0' :: cs → cs = []) (hr : ∀ c cs, rest = c :: cs → c.isDigit = false) :
    whole? (ds ++ rest) = some (ds, rest) := by
  unfold whole?
  rw [span_isDigit hd hr]
  split
  · rename_i e
    cases e
    exact absurd rfl hn
  · rename_i more _ e
    cases e
    rw [hz more rfl]
    rfl
  · rename_i e
    cases e
    rfl

section
variable {n : Numeral} (h : n.Regular) {rest : List Char}
include h

theorem fraction?_append (hr : ∀ c cs, rest = c :: cs → c.isDigit = false ∧ c ≠ '.') :
    fraction? (n.fractionPart ++ rest) = some (n.fraction, rest) := by
  unfold Numeral.fractionPart
  by_cases hn : n.fraction = []
  · rw [if_pos hn, hn]
    cases rest with
    | nil => rfl
    | cons c cs =>
      have hc := (hr c cs rfl).2
      simp [fraction?, hc]
  · rw [if_neg hn, List.cons_append, fraction?, span_isDigit h.fraction fun c cs e => (hr c cs e).1]
    generalize n.fraction = ds at hn
    cases ds with
    | nil => exact absurd rfl hn
    | cons d ds => rfl

theorem exponent?_append (hr : EndsNumber rest) :
    exponent? (n.exponentPart ++ rest) = some (n.exponent, rest) := by
  unfold Numeral.exponentPart
  cases he : n.exponent with
  | none =>
    cases rest with
    | nil => rfl
    | cons c cs =>
      obtain ⟨-, -, he, hE⟩ := hr c cs rfl
      simp [exponent?, he, hE]
  | some p =>
    obtain ⟨negative, digits⟩ := p
    obtain ⟨hn, hd⟩ := h.exponent negative digits he
    have hs := span_isDigit hd fun c cs e => (hr c cs e).1
    have hsign : Numeral.sign ((if negative then '-' else '+') :: (digits ++ rest)) =
        (negative, digits ++ rest) := by
      cases negative <;> rfl
    cases digits with
    | nil => exact absurd rfl hn
    | cons d ds =>
      show exponent? ('e' :: ((if negative then '-' else '+') :: (d :: ds ++ rest))) = _
      simp only [exponent?, true_or, if_true, hsign, hs]

omit h in
theorem exponentPart_append_eq_cons (hr : EndsNumber rest) {c : Char} {cs : List Char}
    (hc : n.exponentPart ++ rest = c :: cs) : c.isDigit = false ∧ c ≠ '.' := by
  unfold Numeral.exponentPart at hc
  split at hc
  · exact ⟨(hr c cs hc).1, (hr c cs hc).2.1⟩
  · cases hc
    decide

theorem whole_append (hr : EndsNumber rest) :
    whole? (n.whole ++ (n.fractionPart ++ (n.exponentPart ++ rest))) =
      some (n.whole, n.fractionPart ++ (n.exponentPart ++ rest)) := by
  refine whole?_append h.whole_ne_nil h.whole h.leading fun c cs hc => ?_
  unfold Numeral.fractionPart at hc
  by_cases hn : n.fraction = []
  · rw [if_pos hn] at hc
    exact (exponentPart_append_eq_cons hr hc).1
  · rw [if_neg hn] at hc
    cases hc
    rfl

theorem numeral?_append (hr : EndsNumber rest) :
    numeral? (n.text.toList ++ rest) = some (n, rest) := by
  have hwhole := whole_append h hr
  have hfraction : fraction? (n.fractionPart ++ (n.exponentPart ++ rest)) =
      some (n.fraction, n.exponentPart ++ rest) :=
    fraction?_append h fun c cs hc => exponentPart_append_eq_cons hr hc
  have hexponent := exponent?_append h hr
  have htext : n.text.toList ++ rest =
      (if n.negative then ['-'] else []) ++
        (n.whole ++ (n.fractionPart ++ (n.exponentPart ++ rest))) := by
    simp only [n.toList_text, List.append_assoc]
  rw [htext]
  unfold numeral?
  cases hneg : n.negative with
  | true =>
    rw [if_pos rfl, List.singleton_append]
    simp only [hwhole, hfraction, hexponent, Option.bind_eq_bind, Option.bind_some, ← hneg]
    rfl
  | false =>
    cases hw : n.whole with
    | nil => exact absurd hw h.whole_ne_nil
    | cons d ds =>
      have hd : d ≠ '-' := by
        rintro rfl
        exact absurd (h.whole '-' (by simp [hw])) (by decide)
      rw [hw, List.cons_append] at hwhole
      rw [if_neg (by simp), List.nil_append, List.cons_append]
      have hnumeral : (⟨false, d :: ds, n.fraction, n.exponent⟩ : Numeral) = n := by
        rw [← hneg, ← hw]
      simp [hwhole, hd, hfraction, hexponent, hnumeral]

theorem token?_number (hr : EndsNumber rest) :
    token? (n.text.toList ++ rest) = some (.number n, rest) := by
  have hn := numeral?_append h hr
  obtain ⟨c, cs, hcs, hc⟩ := h.exists_text_eq_cons
  rw [hcs, List.cons_append] at hn ⊢
  generalize cs ++ rest = ds at hn ⊢
  -- no other token begins with a sign or a digit
  have hne : ∀ d : Char, d ≠ '-' → d.isDigit = false → c ≠ d := by
    rintro d hd hdigit rfl
    rcases hc with hc | hc
    · exact hd hc
    · rw [hdigit] at hc
      cases hc
  unfold token?
  split
  case h_11 => rw [hn]; rfl
  all_goals
    rename_i e
    cases e
    exact absurd rfl (hne _ (by decide) (by decide))

end

/-! ## Writing -/

theorem ofFloat_eq (x : Float) : ofFloat x = .null ∨ ∃ n :
    Numeral, n.Regular ∧ ofFloat x = .number n := by
  unfold ofFloat
  cases h : Layout.json.numeral? x with
  | none => exact .inl rfl
  | some n => exact .inr ⟨n, Layout.regular_of_numeral? h, rfl⟩

theorem ofUInt64_eq (n : UInt64) : ∃ m : Numeral, m.Regular ∧ ofUInt64 n = .number m := by
  refine ⟨_,
    ⟨Nat.toDigits_ne_nil, fun c => isDigit_of_mem_toDigits, fun cs e => ?_, by simp, by simp⟩, rfl⟩
  exact (toDigits_eq_zero_cons e).2

theorem toUInt64?_ofUInt64 (n : UInt64) : toUInt64? (ofUInt64 n) = some n := by
  have hn : n.toNat < UInt64.size := n.toNat_lt
  simp [ofUInt64, toUInt64?, valueOf_toDigits, hn]

end Json

end Reckoner
