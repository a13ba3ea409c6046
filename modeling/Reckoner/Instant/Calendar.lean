/-!
# The calendar

Dates of the Gregorian calendar, extended to all years, and their distance in days from 1 January
1970. Year 0 precedes year 1.
-/

namespace Reckoner

structure Date where
  year : Int
  month : Nat
  day : Nat
deriving DecidableEq, Repr

namespace Date

def isLeapYear (year : Int) : Bool := year % 4 == 0 && (year % 100 != 0 || year % 400 == 0)

def monthLengths (leap : Bool) : List Nat :=
  [31, if leap then 29 else 28, 31, 30, 31, 30, 31, 31, 30, 31, 30, 31]

def isValid (d : Date) : Bool :=
  1 ≤ d.month && 1 ≤ d.day &&
    match (monthLengths (isLeapYear d.year))[d.month - 1]? with
    | some length => d.day ≤ length
    | none => false

/-- The days from 1 January of year 1 to 1 January of the given year. -/
def daysBeforeYear (year : Int) : Int :=
  let past := year - 1
  365 * past + past / 4 - past / 100 + past / 400

/-- The days from 1 January of year 1 to 1 January 1970. -/
def epoch : Int := daysBeforeYear 1970

def daysBeforeMonth (leap : Bool) (month : Nat) : Nat :=
  ((monthLengths leap).take (month - 1)).foldl (· + ·) 0

def toDays (d : Date) : Int :=
  daysBeforeYear d.year + daysBeforeMonth (isLeapYear d.year) d.month + (d.day - 1 : Nat) - epoch

/-- Finds the month in which a day of a year lies, both counted from zero. -/
def monthOf : List Nat → Nat → Nat × Nat
  | [], day => (0, day)
  | length :: rest, day =>
    if day < length then (0, day)
    else
      let (month, left) := monthOf rest (day - length)
      (month + 1, left)

def ofDays (days : Int) : Date :=
  let days := days + epoch
  -- four hundred years, a hundred years but for the last, four years, one year but for the last
  let cycle := days / 146097
  let rest := (days % 146097).toNat
  let century := min (rest / 36524) 3
  let rest := rest - century * 36524
  let quad := rest / 1461
  let rest := rest - quad * 1461
  let single := min (rest / 365) 3
  let rest := rest - single * 365
  let year := 400 * cycle + 100 * century + 4 * quad + single + 1
  let (month, day) := monthOf (monthLengths (isLeapYear year)) rest
  ⟨year, month + 1, day + 1⟩

end Date

end Reckoner
