import Reckoner.Instant.Text
import Reckoner.Proofs.Decimal.Layout
import Reckoner.Proofs.Instant.Calendar
import Reckoner.Proofs.Instant.Clock
import Mathlib

/-!
# Instants as text

An instant is read back from its text, field by field. A number is written with as many digits as
are read. A leap second is written as the second after the one before it, which reads as a leap
second only if it is the second 60: behind any other second of a minute it comes back as the next
second.
-/

namespace Reckoner.Instant

def date (i : Instant) : Date := Date.ofDays (i.second / secondsPerDay)

/-- A leap second stands only behind the last second of a minute. -/
def Placed (i : Instant) : Prop := billion ≤ i.nano → i.second % 60 = 59

instance (i : Instant) : Decidable i.Placed :=
  inferInstanceAs (Decidable (billion ≤ i.nano → i.second % 60 = 59))

def reread (i : Instant) : Instant :=
  if billion ≤ i.nano ∧ i.second % 60 ≠ 59 then ⟨i.second + 1, i.nano - billion⟩ else i

theorem reread_eq_iff {i : Instant} : i.reread = i ↔ i.Placed := by
  unfold reread Placed
  split
  · rename_i h
    refine ⟨fun e => ?_, fun hp => absurd (hp h.1) h.2⟩
    have hsecond : i.second + 1 = i.second := congrArg second e
    omega
  · rename_i h
    exact ⟨fun _ hleap => by_contra fun hne => h ⟨hleap, hne⟩, fun _ => rfl⟩

/-! ## Numbers -/

theorem isDigit_of_mem_padded {width n : Nat} {c : Char} (h : c ∈ padded width n) :
    c.isDigit = true := by
  rcases List.mem_append.1 h with h | h
  · rw [List.eq_of_mem_replicate h]
    rfl
  · exact isDigit_of_mem_toDigits h

theorem length_padded {width n : Nat} (h : n < 10 ^ width) (hw : 0 < width) :
    (padded width n).length = width := by
  have hl : (Nat.toDigits 10 n).length ≤ width := (Nat.length_toDigits_le_iff (by decide) hw).2 h
  unfold padded
  simp only [List.length_append, List.length_replicate]
  omega

theorem valueOf_padded (width n : Nat) : Numeral.valueOf (padded width n) = n := by
  unfold padded
  rw [valueOf_zeros_append, valueOf_toDigits]

theorem padded_ne_nil (width n : Nat) : padded width n ≠ [] := by
  unfold padded
  simp [Nat.toDigits_ne_nil]

theorem skipBlanks_cons {c : Char} (h : Text.isBlank c = false) (cs : List Char) :
    skipBlanks (c :: cs) = c :: cs := by
  simp [skipBlanks, h]

theorem exists_padded_eq_cons (width n : Nat) :
    ∃ c cs, padded width n = c :: cs ∧ c.isDigit = true := by
  cases h : padded width n with
  | nil => exact absurd h (padded_ne_nil width n)
  | cons c cs => exact ⟨c, cs, rfl, isDigit_of_mem_padded (h ▸ List.mem_cons_self)⟩

theorem skipBlanks_padded (width n : Nat) (rest : List Char) :
    skipBlanks (padded width n ++ rest) = padded width n ++ rest := by
  obtain ⟨c, cs, h, hc⟩ := exists_padded_eq_cons width n
  rw [h, List.cons_append, skipBlanks_cons (Text.isBlank_of_isDigit hc)]

theorem digits?_padded {width n : Nat} (h : n < 10 ^ width) (hw : 0 < width) (rest : List Char) :
    digits? width (padded width n ++ rest) = some (n, rest) := by
  have hl := length_padded h hw
  have htake : (padded width n ++ rest).take width = padded width n := List.take_left' hl
  have hall : (padded width n).takeWhile Char.isDigit = padded width n :=
    List.takeWhile_eq_self_iff.2 fun c hc => isDigit_of_mem_padded hc
  unfold digits?
  simp only [htake, hall, if_neg (padded_ne_nil width n), valueOf_padded, List.drop_left]

theorem number?_padded {n : Nat} (h : n < 100) (rest : List Char) :
    number? (padded 2 n ++ rest) = some (n, rest) := by
  rw [number?, skipBlanks_padded, digits?_padded (by omega) (by decide)]

theorem year?_yearText {year : Int} (h : 0 ≤ year ∧ year ≤ 9999) (rest : List Char) :
    year? (yearText year ++ rest) = some (year, rest) := by
  have hread : digits? 4 (padded 4 year.toNat ++ rest) = some (year.toNat, rest) :=
    digits?_padded (by omega) (by decide) rest
  obtain ⟨c, cs, hcons, hc⟩ := exists_padded_eq_cons 4 year.toNat
  unfold year? yearText
  rw [if_pos h, skipBlanks_padded]
  rw [hcons, List.cons_append] at hread ⊢
  split
  · rename_i e
    cases e
    exact absurd hc (by decide)
  · rename_i e
    cases e
    exact absurd hc (by decide)
  · rw [hread]
    simp [Int.toNat_of_nonneg h.1]

theorem expect?_cons {c : Char} (h : Text.isBlank c = false) (rest : List Char) :
    expect? c (c :: rest) = some rest := by
  unfold expect?
  rw [skipBlanks_cons h]
  simp

/-! ## Fractions of a second -/

theorem fraction?_padded {width n : Nat} (h : n < 10 ^ width) (hw : 0 < width) (hw' : width ≤ 9)
    {rest : List Char} (hr : ∀ c cs, rest = c :: cs → c.isDigit = false) :
    fraction? ('.' :: (padded width n ++ rest)) = some (n * Nat.pow 10 (9 - width), rest) := by
  have hl := length_padded h hw
  have hdigits : (padded width n ++ rest).takeWhile Char.isDigit = padded width n := by
    rw [List.takeWhile_append_of_pos fun c hc => isDigit_of_mem_padded hc]
    cases rest with
    | nil => simp
    | cons c cs => simp [hr c cs rfl]
  have htake : (padded width n).take 9 = padded width n := List.take_of_length_le (by omega)
  unfold fraction?
  simp only [hdigits, if_neg (padded_ne_nil width n), htake, valueOf_padded, hl, List.drop_left' hl]

theorem fraction?_fractionText {nano : Nat} (h : nano < billion) :
    fraction? (fractionText nano ++ ['Z']) = some (nano, ['Z']) := by
  have hr : ∀ c cs, ['Z'] = c :: cs → c.isDigit = false := by
    intro c cs e
    cases e
    rfl
  unfold billion at h
  unfold fractionText
  by_cases h0 : nano = 0
  · rw [if_pos h0, h0]
    rfl
  rw [if_neg h0]
  by_cases h6 : nano % 1000000 = 0
  · rw [if_pos h6, List.cons_append, fraction?_padded (by omega) (by decide) (by decide) hr]
    show some (nano / 1000000 * 1000000, ['Z']) = _
    rw [Nat.div_mul_cancel (Nat.dvd_of_mod_eq_zero h6)]
  rw [if_neg h6]
  by_cases h3 : nano % 1000 = 0
  · rw [if_pos h3, List.cons_append, fraction?_padded (by omega) (by decide) (by decide) hr]
    show some (nano / 1000 * 1000, ['Z']) = _
    rw [Nat.div_mul_cancel (Nat.dvd_of_mod_eq_zero h3)]
  · rw [if_neg h3, List.cons_append, fraction?_padded (by omega) (by decide) (by decide) hr]
    show some (nano * 1, ['Z']) = _
    rw [Nat.mul_one]

/-! ## Texts -/

section
variable {i : Instant} (hi : i.Shown) (hyear : 0 ≤ i.date.year ∧ i.date.year ≤ 9999)
include hi hyear

/-- The second 60 is a leap second, the others are seconds of their minute. -/
theorem ofFields?_fields : ofFields? i.date ((i.second % secondsPerDay).toNat / 3600)
    ((i.second % secondsPerDay).toNat / 60 % 60)
      ((i.second % secondsPerDay).toNat % 60 + if billion ≤ i.nano then 1 else 0)
      (i.nano % billion) 0 =
      some i.reread := by
  have hdays : i.date.toDays = i.second / secondsPerDay := Date.toDays_ofDays _
  have hvalid : i.date.isValid = true := Date.isValid_ofDays _
  have hrange := hi.representable
  have hnano := hi.nano
  have hfirst : firstSecond = -8334601228800 := by decide
  have hlast : lastSecond = 8210266876799 := by decide
  simp only [isRepresentable, hfirst, hlast, Bool.and_eq_true, decide_eq_true_eq] at hrange
  obtain ⟨second, nano⟩ := i
  generalize date ⟨second, nano⟩ = d at *
  unfold reread
  unfold secondsPerDay billion at *
  dsimp only at *
  generalize hs : (second % 86400).toNat = s
  have hshown : ∀ n k, -8334601228800 ≤ n → n ≤ 8210266876799 → isRepresentable ⟨n, k⟩ = true := by
    intro n k hlow hhigh
    simp only [isRepresentable, hfirst, hlast, Bool.and_eq_true, decide_eq_true_eq]
    exact ⟨hlow, hhigh⟩
  have hclock : ∀ n : Nat, d.toDays * secondsPerDay +
      ((s / 3600 : Nat) * 3600 + (s / 60 % 60 : Nat) * 60 + n) - 0 =
        second + (n - (s % 60 : Nat)) := by
    intro n
    unfold secondsPerDay
    omega
  unfold ofFields?
  by_cases hleap : 1000000000 ≤ nano
  · by_cases hlast60 : second % 60 = 59
    · have h60 : s % 60 + 1 = 60 := by omega
      have hsecond : second + (((59 : Nat) : Int) - (s % 60 : Nat)) = second := by omega
      have hfraction : billion + nano % 1000000000 = nano := by
        unfold billion
        omega
      simp only [if_pos hleap, h60, if_true, hclock, hsecond, hfraction, hlast60, ne_eq, not_true,
        and_false, if_false]
      exact if_pos ⟨hvalid, by omega, by omega, by omega, by omega, by omega,
        hshown _ _ hrange.1 hrange.2⟩
    · have h60 : s % 60 + 1 ≠ 60 := by omega
      have hsecond : second + (((s % 60 + 1 : Nat) : Int) - (s % 60 : Nat)) = second + 1 := by omega
      have hfraction : nano % 1000000000 = nano - 1000000000 := by omega
      simp only [if_pos hleap, if_neg h60, hclock, hsecond, hfraction,
        if_pos (And.intro hleap hlast60)]
      exact if_pos ⟨hvalid, by omega, by omega, by omega, by omega, by omega,
        hshown _ _ (by omega) (by omega)⟩
  · have h60 : s % 60 + 0 ≠ 60 := by omega
    have hsecond : second + (((s % 60 + 0 : Nat) : Int) - (s % 60 : Nat)) = second := by omega
    have hfraction : nano % 1000000000 = nano := by omega
    simp only [if_neg h60, hclock, hsecond, hfraction, hleap, false_and, if_false]
    exact if_pos ⟨hvalid, by omega, by omega, by omega, by omega, by omega,
      hshown _ _ hrange.1 hrange.2⟩

theorem parse?_text : parse? i.text = some i.reread := by
  have hbounds : i.date.month ≤ 12 ∧ i.date.day ≤ 31 :=
    Date.bounds_of_isValid (Date.isValid_ofDays _)
  have hfields := ofFields?_fields hi hyear
  have hfraction : fraction? (fractionText (i.nano % billion) ++ ['Z']) =
      some (i.nano % billion, ['Z']) :=
    fraction?_fractionText (Nat.mod_lt _ (by decide))
  have hday : (i.second % secondsPerDay).toNat < 86400 := by
    unfold secondsPerDay
    omega
  have hleap : (if billion ≤ i.nano then 1 else 0) ≤ 1 := by split <;> omega
  have htext : i.text.toList = yearText i.date.year ++
      '-' :: (padded 2 i.date.month ++ '-' :: (padded 2 i.date.day ++
        'T' :: (padded 2 ((i.second % secondsPerDay).toNat / 3600) ++
      ':' :: (padded 2 ((i.second % secondsPerDay).toNat / 60 % 60) ++
        ':' ::
      (padded 2 ((i.second % secondsPerDay).toNat % 60 + if billion ≤ i.nano then 1 else 0) ++
        (fractionText (i.nano % billion) ++ ['Z'])))))) := by
    simp only [text, String.toList_ofList, List.append_assoc, List.cons_append]
    rfl
  generalize (i.second % secondsPerDay).toNat = s at *
  generalize (if billion ≤ i.nano then 1 else 0) = leap at *
  have hmonth := number?_padded (n := i.date.month) (by omega)
  have hd := number?_padded (n := i.date.day) (by omega)
  have hhour := number?_padded (n := s / 3600) (by omega)
  have hminute := number?_padded (n := s / 60 % 60) (by omega)
  have hsecond := number?_padded (n := s % 60 + leap) (by omega)
  have hdash : ∀ rest, expect? '-' ('-' :: rest) = some rest := expect?_cons (by decide)
  have hcolon : ∀ rest, expect? ':' (':' :: rest) = some rest := expect?_cons (by decide)
  unfold parse?
  rw [htext, year?_yearText hyear]
  simp only [↓Option.bind_eq_bind, ↓Option.bind_some, hdash, hmonth, hd, hhour, hcolon, hminute,
    hsecond, hfraction]
  exact hfields

end

end Reckoner.Instant
