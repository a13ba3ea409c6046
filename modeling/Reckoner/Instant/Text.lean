import Reckoner.Decimal.Numeral
import Reckoner.Instant.Basic
import Reckoner.Text.Blank

/-!
# Instants as text

Instants are written as RFC 3339 in universal time, with 0, 3, 6 or 9 digits of a second. Reading
takes any offset, and is more liberal with white space, signs and the width of numbers.
-/

namespace Reckoner.Instant

/-! ## Writing -/

def padded (width n : Nat) : List Char :=
  let digits := Nat.toDigits 10 n
  List.replicate (width - digits.length) '0' ++ digits

/-- Four digits from year 0 to 9999; other years have a sign and at least four digits. -/
def yearText (year : Int) : List Char :=
  if 0 ≤ year ∧ year ≤ 9999 then padded 4 year.toNat
  else (if year < 0 then '-' else '+') :: padded 4 year.natAbs

/-- The shortest of 0, 3, 6 and 9 digits that is exact. -/
def fractionText (nano : Nat) : List Char :=
  if nano = 0 then []
  else if nano % 1000000 = 0 then '.' :: padded 3 (nano / 1000000)
  else if nano % 1000 = 0 then '.' :: padded 6 (nano / 1000)
  else '.' :: padded 9 nano

/-- Writes the instant in universal time; a leap second is the second 60. -/
def text (i : Instant) : String :=
  let date := Date.ofDays (i.second / secondsPerDay)
  let second := (i.second % secondsPerDay).toNat
  let leap := if billion ≤ i.nano then 1 else 0
  String.ofList <|
    yearText date.year ++ '-' :: padded 2 date.month ++ '-' :: padded 2 date.day ++
    'T' :: padded 2 (second / 3600) ++ ':' :: padded 2 (second / 60 % 60) ++
    ':' :: padded 2 (second % 60 + leap) ++ fractionText (i.nano % billion) ++ ['Z']

/-! ## Reading -/

abbrev Found (α : Type) := Option (α × List Char)

def skipBlanks (cs : List Char) : List Char := cs.dropWhile Text.isBlank

def digits? (width : Nat) (cs : List Char) : Found Nat :=
  let digits := (cs.take width).takeWhile Char.isDigit
  if digits = [] then none else some (Numeral.valueOf digits, cs.drop digits.length)

/-- A number of one or two digits, after white space. -/
def number? (cs : List Char) : Found Nat := digits? 2 (skipBlanks cs)

/-- A year of at most four digits, or of any number of digits after a sign. -/
def year? (cs : List Char) : Found Int :=
  match skipBlanks cs with
  | '-' :: rest => (digits? rest.length rest).map fun (n, rest) => (-(n : Int), rest)
  | '+' :: rest => (digits? rest.length rest).map fun (n, rest) => ((n : Int), rest)
  | rest => (digits? 4 rest).map fun (n, rest) => ((n : Int), rest)

def expect? (c : Char) (cs : List Char) : Option (List Char) :=
  match skipBlanks cs with
  | d :: rest => if d = c then some rest else none
  | [] => none

/-- Nanoseconds behind a point: nine digits count, more are passed over. -/
def fraction? : List Char → Found Nat
  | '.' :: cs =>
    let digits := cs.takeWhile Char.isDigit
    if digits = [] then none
    else
      let kept := digits.take 9
      some (Numeral.valueOf kept * Nat.pow 10 (9 - kept.length), cs.drop digits.length)
  | cs => some (0, cs)

/-- Two digits, which no white space may precede. -/
def twoDigits? (cs : List Char) : Found Nat :=
  match cs with
  | a :: b :: rest => if a.isDigit ∧ b.isDigit then some (Numeral.valueOf [a, b], rest) else none
  | _ => none

/-- The seconds by which local time is ahead: `Z`, `UTC`, or a sign, hours and minutes. -/
def offset? (cs : List Char) : Option (Int × List Char) :=
  if (cs.take 3).map Char.toUpper = ['U', 'T', 'C'] then some (0, cs.drop 3)
  else
    match cs with
    | [] => none
    | c :: rest =>
      if c = 'Z' ∨ c = 'z' then some (0, rest)
      else if c = '+' ∨ c = '-' ∨ c = '\u2212' then do
        let (hours, rest) ← twoDigits? rest
        let (minutes, rest) ← twoDigits? (rest.dropWhile fun c => c = ':' ∨ Text.isBlank c)
        let seconds : Int := hours * 3600 + minutes * 60
        if 60 ≤ minutes ∨ (secondsPerDay : Int) ≤ seconds then none
        else some (if c = '+' then seconds else -seconds, rest)
      else none

def ofFields? (date : Date) (hour minute second nano : Nat) (offset : Int) : Option Instant :=
  let leap := second = 60
  let clock : Int := hour * 3600 + minute * 60 + (if leap then 59 else second)
  let i : Instant :=
    ⟨date.toDays * secondsPerDay + clock - offset, if leap then billion + nano else nano⟩
  if date.isValid ∧ -262143 ≤ date.year ∧ date.year ≤ 262142 ∧
      hour < 24 ∧ minute < 60 ∧ second ≤ 60 ∧ i.isRepresentable
  then some i else none

def parse? (text : String) : Option Instant := do
  let (year, rest) ← year? text.toList
  let (month, rest) ← number? (← expect? '-' rest)
  let (day, rest) ← number? (← expect? '-' rest)
  let rest ←
    match rest with
    | c :: rest => if c = 'T' ∨ c = 't' ∨ c = ' ' then some rest else none
    | [] => none
  let (hour, rest) ← number? rest
  let (minute, rest) ← number? (← expect? ':' rest)
  let (second, rest) ← number? (← expect? ':' rest)
  let (nano, rest) ← fraction? rest
  let (offset, rest) ← offset? (skipBlanks rest)
  if rest.all Text.isBlank then ofFields? ⟨year, month, day⟩ hour minute second nano offset
  else none

end Reckoner.Instant
