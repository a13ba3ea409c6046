import Mathlib
import Reckoner.Instant.Calendar

/-!
# Dates of days

The date that is computed for a day is a date of the calendar, and it is as many days away as the
day is.
-/

namespace Reckoner.Date

/-! ## Months -/

theorem monthOf_spec : ∀ {lengths : List Nat} {day : Nat}, day < lengths.sum →
    ∃ length, lengths[(monthOf lengths day).1]? = some length ∧ (monthOf lengths day).2 < length ∧
      (lengths.take (monthOf lengths day).1).sum + (monthOf lengths day).2 = day
  | [], day, h => by simp at h
  | length :: rest, day, h => by
    unfold monthOf
    by_cases hd : day < length
    · rw [if_pos hd]
      exact ⟨length, rfl, hd, by simp⟩
    · rw [List.sum_cons] at h
      obtain ⟨l, hl, hlt, hsum⟩ := @monthOf_spec rest (day - length) (by omega)
      rw [if_neg hd]
      dsimp only
      refine ⟨l, by simpa using hl, hlt, ?_⟩
      rw [List.take_succ_cons, List.sum_cons]
      omega

theorem sum_monthLengths (leap : Bool) : (monthLengths leap).sum = if leap then 366 else 365 := by
  cases leap <;> rfl

theorem daysBeforeMonth_succ (leap : Bool) (month : Nat) :
    daysBeforeMonth leap (month + 1) = ((monthLengths leap).take month).sum :=
  List.sum_eq_foldl_nat.symm

/-! ## Years -/

theorem isLeapYear_iff (year : Int) :
    isLeapYear year = true ↔ year % 4 = 0 ∧ (year % 100 ≠ 0 ∨ year % 400 = 0) := by
  simp [isLeapYear]

/-- The day, counted from the start of the year it lies in. -/
theorem ofDays_spec (days : Int) : ∃ (year : Int) (rest : Nat),
    ofDays days = ⟨year, (monthOf (monthLengths (isLeapYear year)) rest).1 + 1,
      (monthOf (monthLengths (isLeapYear year)) rest).2 + 1⟩ ∧
    daysBeforeYear year + rest = days + epoch ∧ rest < (monthLengths (isLeapYear year)).sum := by
  generalize htotal : days + epoch = total
  generalize hcycle : total / 146097 = cycle
  generalize hr : (total % 146097).toNat = r
  generalize hcentury : min (r / 36524) 3 = century
  generalize hr' : r - century * 36524 = r'
  generalize hquad : r' / 1461 = quad
  generalize hr'' : r' - quad * 1461 = r''
  generalize hsingle : min (r'' / 365) 3 = single
  let year : Int := 400 * cycle + 100 * century + 4 * quad + single + 1
  have hbounds : century ≤ 3 ∧ quad ≤ 24 ∧ single ≤ 3 := by omega
  have hdays : daysBeforeYear year = 146097 * cycle + 36524 * century + 1461 * quad +
      365 * single := by
    show 365 * (year - 1) + (year - 1) / 4 - (year - 1) / 100 + (year - 1) / 400 = _
    have h4 : (year - 1) / 4 = 100 * cycle + 25 * century + quad := by omega
    have h100 : (year - 1) / 100 = 4 * cycle + century := by omega
    have h400 : (year - 1) / 400 = cycle := by omega
    rw [h4, h100, h400]
    omega
  refine ⟨year, r'' - single * 365, ?_, by omega, ?_⟩
  · unfold ofDays
    simp only [htotal, hcycle, hr, hcentury, hr', hquad, hr'', hsingle]
    rfl
  · rw [sum_monthLengths]
    by_cases hlast : r'' - single * 365 < 365
    · split <;> omega
    · -- only the last of four years has a day more, and not the last of a hundred, but the last
      -- of four hundred
      have hleap : isLeapYear year = true := (isLeapYear_iff year).2 (by omega)
      rw [if_pos hleap]
      omega

theorem toDays_ofDays (days : Int) : (ofDays days).toDays = days := by
  obtain ⟨year, rest, h, hdays, hrest⟩ := ofDays_spec days
  obtain ⟨length, -, -, hsum⟩ := monthOf_spec hrest
  rw [h, toDays]
  dsimp only
  rw [daysBeforeMonth_succ]
  omega

theorem isValid_ofDays (days : Int) : (ofDays days).isValid = true := by
  obtain ⟨year, rest, h, -, hrest⟩ := ofDays_spec days
  obtain ⟨length, hlength, hlt, -⟩ := monthOf_spec hrest
  rw [h, isValid]
  simp only [Nat.add_sub_cancel, hlength]
  simpa [Nat.succ_le_iff] using hlt

theorem bounds_of_isValid {d : Date} (h : d.isValid = true) : d.month ≤ 12 ∧ d.day ≤ 31 := by
  unfold isValid at h
  cases hl : (monthLengths (isLeapYear d.year))[d.month - 1]? with
  | none => simp [hl] at h
  | some length =>
    have hmonth : d.month - 1 < 12 := (List.getElem?_eq_some_iff.1 hl).1
    have hlength : length ≤ 31 := by
      have hall : ∀ leap, ∀ l ∈ monthLengths leap, l ≤ 31 := by decide
      exact hall _ length (List.mem_of_getElem? hl)
    simp only [hl, Bool.and_eq_true, decide_eq_true_eq] at h
    omega

end Reckoner.Date
