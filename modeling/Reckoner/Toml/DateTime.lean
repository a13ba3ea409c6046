import Reckoner.Decimal.Numeral
import Reckoner.Instant.Calendar
import Reckoner.Toml.Basic

/-!
# Dates and times in TOML

A date, a time of day, or both with or without an offset. The readers return what follows.
-/

namespace Reckoner.Toml

def fixed? (width : Nat) (cs : List Char) : Option (Nat × List Char) :=
  let digits := cs.take width
  if digits.length = width ∧ digits.all Char.isDigit then
    some (Numeral.valueOf digits, cs.drop width)
  else none

def skip? (c : Char) : List Char → Option (List Char)
  | d :: cs => if d = c then some cs else none
  | [] => none

def date? (cs : List Char) : Option (List Char) := do
  let (year, cs) ← fixed? 4 cs
  let (month, cs) ← fixed? 2 (← skip? '-' cs)
  let (day, cs) ← fixed? 2 (← skip? '-' cs)
  if (Date.mk year month day).isValid then return cs else none

def secondFraction? : List Char → Option (List Char)
  | '.' :: cs =>
    match cs.span Char.isDigit with
    | ([], _) => none
    | (_, rest) => some rest
  | cs => some cs

/-- A time of day, which may be in a leap second. -/
def time? (cs : List Char) : Option (List Char) := do
  let (hour, cs) ← fixed? 2 cs
  let (minute, cs) ← fixed? 2 (← skip? ':' cs)
  let (second, cs) ← fixed? 2 (← skip? ':' cs)
  if hour ≤ 23 ∧ minute ≤ 59 ∧ second ≤ 60 then secondFraction? cs else none

def offset? : List Char → Option (List Char)
  | [] => none
  | c :: cs =>
    if c = 'Z' ∨ c = 'z' then some cs
    else if c = '+' ∨ c = '-' then do
      let (hour, cs) ← fixed? 2 cs
      let (minute, cs) ← fixed? 2 (← skip? ':' cs)
      if hour ≤ 23 ∧ minute ≤ 59 then return cs else none
    else none

/-- What follows a date: a time behind `T` or a blank, and an offset behind the time. -/
def afterDate : List Char → List Char
  | [] => []
  | c :: cs =>
    if c = 'T' ∨ c = 't' ∨ c = ' ' then
      match time? cs with
      | some rest => (offset? rest).getD rest
      | none => c :: cs
    else c :: cs

def dateTime? (cs : List Char) : Option (Toml × List Char) := do
  let rest ← ((date? cs).map afterDate).or (time? cs)
  return (.dateTime (String.ofList (cs.take (cs.length - rest.length))), rest)

end Reckoner.Toml
