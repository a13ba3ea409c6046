import Reckoner.Decimal.Layout
import Reckoner.Json.Basic

/-!
# Numbers in JSON

A number is read as a natural number of 64 bits or as a binary64 number. The binary64 number is
computed from at most 64 bits of digits with one multiplication or division by a power of ten, so
it need not be the nearest one.
-/

namespace Reckoner.Json

/-! ## Writing -/

/-- A number, or `null` if it is not finite. -/
def ofFloat (x : Float) : Json :=
  match Layout.json.numeral? x with
  | some n => .number n
  | none => .null

def ofUInt64 (n : UInt64) : Json := .number ⟨false, Nat.toDigits 10 n.toNat, [], none⟩

/-! ## Reading -/

/--
Appends digits to a number as long as it stays below `2 ^ 64`, and returns the digits left over.
-/
def absorb (n : Nat) : List Char → Nat × List Char
  | [] => (n, [])
  | c :: cs =>
    let next := 10 * n + (c.toNat - '0'.toNat)
    if next < UInt64.size then absorb next cs else (n, c :: cs)

def tenTo (n : Nat) : Float := Float.ofScientific 1 false n

def maxPower : Nat := 308

/--
Multiplies by a power of ten, none beyond the range. Smaller powers than the least take at most
`fuel` divisions.
-/
def scale? : (fuel : Nat) → Float → Int → Option Float
  | 0, _, _ => some 0.0
  | fuel + 1, x, power =>
    if power.natAbs ≤ maxPower then
      if power < 0 then some (x / tenTo power.natAbs)
      else if (x * tenTo power.natAbs).isInf then none
      else some (x * tenTo power.natAbs)
    else if x == 0 then some x
    else if 0 ≤ power then none
    else scale? fuel (x / tenTo maxPower) (power + maxPower)

/--
The binary64 number of a numeral, none beyond the range. Digits that do not fit into 64 bits are
lost.
-/
def numberOf? (n : Numeral) : Option Float :=
  let (whole, lost) := absorb 0 n.whole
  let (significand, skipped) := absorb whole n.fraction
  let power := n.power + lost.length - (n.fraction.length - skipped.length : Nat)
  (scale? 3 (Float.ofNat significand) power).map fun x => if n.negative then -x else x

def toFloat? : Json → Option Float
  | .number n => numberOf? n
  | _ => none

def toUInt64? : Json → Option UInt64
  | .number ⟨false, whole, [], none⟩ =>
    let n := Numeral.valueOf whole
    if n < UInt64.size then some n.toUInt64 else none
  | _ => none

end Reckoner.Json
