import Reckoner.Proofs.Decimal.Nearest
import Reckoner.Proofs.Formula.Scan
import Reckoner.Proofs.Json.Number

/-!
# Numbers in printed formulas

A number without a sign is printed with digits and a point, or as a word. Either is one atom, and
the atom stands for the number. What has no minus sign is read as a number without a sign.
-/

namespace Reckoner

theorem Token.isPlain_of_isDigit {c : Char} (h : c.isDigit = true) : IsPlain c := by
  refine isPlain_iff.2 ?_
  rintro (hmark | hblank)
  · have hnone : marks.all (fun d => !d.isDigit) = true := rfl
    simpa [h] using List.all_eq_true.1 hnone c hmark
  · rw [Text.isBlank_of_isDigit h] at hblank
    cases hblank

namespace Formula

/-- The text of the number is one atom, and is read back as the number. -/
structure Printable (v : Float) : Prop where
  ne_nil : (Layout.plain.text v).toList ≠ []
  isPlain : ∀ c ∈ (Layout.plain.text v).toList, Token.IsPlain c
  reads : number? (Layout.plain.text v) = some v

/-! ## Numbers without a sign -/

theorem negative_of_sign {cs : List Char} (h : '-' ∉ cs) : (Numeral.sign cs).1 = false := by
  unfold Numeral.sign
  split
  · exact absurd List.mem_cons_self h
  · rfl
  · rfl

theorem negative_of_numeral? {negative : Bool} {cs : List Char} {n : Numeral}
    (h : numeral? negative cs = some n) : n.negative = negative := by
  unfold numeral? at h
  dsimp only at h
  split at h
  all_goals
    split at h
    · cases h
    · obtain ⟨exponent, -, hn⟩ := Option.bind_eq_some_iff.1 h
      cases hn
      rfl

theorem isUnsigned_of_number? {text : String} (ht : '-' ∉ text.toList) {v : Float}
    (h : number? text = some v) : (Binary64.ofFloat v).isUnsigned = true := by
  have hsign := negative_of_sign ht
  unfold number? at h
  generalize Numeral.sign text.toList = p at *
  obtain ⟨negative, cs⟩ := p
  obtain rfl : negative = false := hsign
  rcases Option.or_eq_some_iff.1 h with hnamed | ⟨-, hnumeral⟩
  · obtain ⟨x, hx, rfl⟩ := Option.map_eq_some_iff.1 hnamed
    rw [if_neg (by simp)]
    unfold namedNumber? at hx
    split at hx
    · cases hx
      decide +kernel
    · cases hx
      decide +kernel
    · cases hx
      decide +kernel
    · cases hx
  · obtain ⟨n, hn, rfl⟩ := Option.map_eq_some_iff.1 hnumeral
    exact Numeral.isUnsigned_nearest (negative_of_numeral? hn)

/-! ## Numerals -/

theorem toLower_of_isDigit {c : Char} (h : c.isDigit = true) : c.toLower = c := by
  have hc : 48 ≤ c.toNat ∧ c.toNat ≤ 57 := Char.isDigit_iff_toNat.1 h
  unfold Char.toLower
  refine dif_neg fun hupper => ?_
  have : 65 ≤ c.toNat := UInt32.le_iff_toNat_le.1 hupper.1
  omega

theorem namedNumber?_of_isDigit {c : Char} (h : c.isDigit = true) (cs : List Char) :
    namedNumber? (c :: cs) = none := by
  have hne : ∀ (d : Char) (ds : List Char), d.isDigit = false →
      String.ofList ((c :: cs).map Char.toLower) ≠ String.ofList (d :: ds) := by
    intro d ds hd e
    have hcons := String.ofList_injective e
    rw [List.map_cons, toLower_of_isDigit h, List.cons.injEq] at hcons
    rw [hcons.1, hd] at h
    cases h
  unfold namedNumber?
  split
  · rename_i e
    exact absurd e (hne 'i' ['n', 'f'] rfl)
  · rename_i e
    exact absurd e (hne 'i' ['n', 'f', 'i', 'n', 'i', 't', 'y'] rfl)
  · rename_i e
    exact absurd e (hne 'n' ['a', 'n'] rfl)
  · rfl

section
variable {n : Numeral} (hn : n.negative = false) (he : n.exponent = none)
include hn he

theorem toList_text_eq : n.text.toList = n.whole ++ n.fractionPart := by
  rw [n.toList_text, hn]
  simp [Numeral.exponentPart, he]

variable (h : n.Regular)
include h

theorem numeral?_text : numeral? false n.text.toList = some n := by
  have hpoint : ∀ c cs, n.fractionPart = c :: cs → c.isDigit = false := by
    intro c cs hc
    unfold Numeral.fractionPart at hc
    split at hc
    · cases hc
    · cases hc
      rfl
  have hspan : n.fraction.span Char.isDigit = (n.fraction, []) := by
    have hend : ∀ c cs, ([] : List Char) = c :: cs → c.isDigit = false := by rintro _ _ ⟨⟩
    simpa using Json.span_isDigit h.fraction hend
  have hwhole := h.whole_ne_nil
  rw [toList_text_eq hn he]
  unfold numeral?
  rw [Json.span_isDigit h.whole hpoint]
  obtain ⟨negative, whole, fraction, exponent⟩ := n
  dsimp only at hn he hwhole hspan ⊢
  subst hn he
  unfold Numeral.fractionPart
  by_cases hf : fraction = []
  · subst hf
    simp [hwhole, exponent?]
  · simp only [if_neg hf, hspan]
    simp [hwhole, exponent?]

/-- A numeral without sign and exponent is a number as it stands. -/
theorem number?_text : number? n.text = some n.nearest := by
  have hdigit : ∃ c cs, n.text.toList = c :: cs ∧ c.isDigit = true := by
    rw [toList_text_eq hn he]
    cases hw : n.whole with
    | nil => exact absurd hw h.whole_ne_nil
    | cons c cs => exact ⟨c, _, rfl, h.whole c (by simp [hw])⟩
  obtain ⟨c, cs, hcs, hc⟩ := hdigit
  have hnumeral := numeral?_text hn he h
  have hsign : Numeral.sign (c :: cs) = (false, c :: cs) := by
    unfold Numeral.sign
    split
    · rename_i e
      cases e
      cases hc
    · rename_i e
      cases e
      cases hc
    · rfl
  rw [hcs] at hnumeral
  unfold number?
  rw [hcs, hsign]
  simp only [namedNumber?_of_isDigit hc, hnumeral]
  rfl

theorem isPlain_text : ∀ c ∈ n.text.toList, Token.IsPlain c := by
  intro c hc
  rw [toList_text_eq hn he] at hc
  rcases List.mem_append.1 hc with hc | hc
  · exact Token.isPlain_of_isDigit (h.whole c hc)
  · unfold Numeral.fractionPart at hc
    split at hc
    · cases hc
    · rcases List.mem_cons.1 hc with rfl | hc
      · exact ⟨rfl, by decide⟩
      · exact Token.isPlain_of_isDigit (h.fraction c hc)

end

/-! ## Printed numbers -/

theorem exponent_of_plain {v : Float} {n : Numeral} (h : Layout.plain.numeral? v = some n) :
    n.exponent = none := by
  unfold Layout.numeral? at h
  split at h
  · cases h
  · cases h
  · cases h
    rfl
  · cases h
    rfl

/-- Every number but a negative one is printed as an atom that is read back. -/
theorem printable_of_isUnsigned {v : Float} (h : (Binary64.ofFloat v).isUnsigned = true) :
    Printable v := by
  cases hn : Layout.plain.numeral? v with
  | some n =>
    obtain ⟨hnegative, hnearest⟩ := Layout.nearest_numeral? h hn
    have hregular := Layout.regular_of_numeral? hn
    have hexponent := exponent_of_plain hn
    have htext : Layout.plain.text v = n.text := by
      unfold Layout.text
      rw [hn]
    refine ⟨?_, ?_, ?_⟩
    · obtain ⟨c, cs, hcs, -⟩ := hregular.exists_text_eq_cons
      rw [htext, hcs]
      exact List.cons_ne_nil c cs
    · rw [htext]
      exact isPlain_text hnegative hexponent hregular
    · rw [htext, number?_text hnegative hexponent hregular, hnearest]
  | none =>
    -- the words for what has no digits
    have hword : ∀ w : Float, Binary64.ofFloat v = Binary64.ofFloat w → Printable w →
        Printable v := by
      intro w hw hp
      rw [Binary64.ofFloat_injective hw]
      exact hp
    have hplain : ∀ cs : List Char, cs.all (fun c => decide (Token.IsPlain c)) = true →
        ∀ c ∈ cs, Token.IsPlain c :=
      fun cs hall c hc => of_decide_eq_true (List.all_eq_true.1 hall c hc)
    unfold Layout.numeral? at hn
    split at hn
    · rename_i hx
      exact hword (0.0 / 0.0) (hx.trans (by decide +kernel)) ⟨by decide, hplain _ rfl, rfl⟩
    · rename_i negative hx
      rw [hx] at h
      obtain rfl : negative = false := by simpa [Binary64.isUnsigned] using h
      exact hword (1.0 / 0.0) (hx.trans (by decide +kernel)) ⟨by decide, hplain _ rfl, rfl⟩
    · cases hn
    · cases hn

end Formula

end Reckoner
