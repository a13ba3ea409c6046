import Reckoner.Decimal.Binary64

/-!
# Shortest decimals

The decimal with the fewest digits that still rounds to a given binary number; among those of
that length, the one nearest to it.
-/

namespace Reckoner

/-- The number `digits * 10 ^ exponent`. -/
structure Decimal where
  digits : Nat
  exponent : Int
deriving DecidableEq, Repr

namespace Decimal

/-- Which neighbour an exact half goes to. -/
inductive Tie where
  | up
  | even
deriving DecidableEq, Repr

def width (n : Nat) : Nat := (Nat.toDigits 10 n).length

def stripZeros : Nat → Decimal → Decimal
  | 0, d => d
  | fuel + 1, d =>
    if d.digits ≠ 0 ∧ d.digits % 10 = 0 then stripZeros fuel ⟨d.digits / 10, d.exponent + 1⟩ else d

/-- The real numbers that round to a positive binary number, as multiples of `2 ^ scale`. -/
structure Cell where
  lower : Nat
  centre : Nat
  upper : Nat
  scale : Int
  /-- Whether both ends belong to the cell. -/
  closed : Bool

/-- A cell reaches half way to both neighbours; its ends round to even significands. -/
def Cell.of (significand : Nat) (exponent : Int) : Cell where
  lower := 4 * significand - if Binary64.isNarrowBelow significand exponent then 1 else 2
  centre := 4 * significand
  upper := 4 * significand + 2
  scale := exponent - 2
  closed := significand % 2 == 0

/-- The exponent `e` for which the number lies in `10 ^ e ≤ x < 10 ^ (e + 1)`. -/
def magnitude (significand : Nat) (exponent : Int) : Int :=
  let num := significand * Nat.pow 2 exponent.toNat
  let den := Nat.pow 2 (-exponent).toNat
  if den ≤ num then width (num / den) - 1
  else -(width ((den + num - 1) / num - 1))

/--
The point of the grid of multiples of `10 ^ exponent` inside the cell that is nearest to its centre.
-/
def Cell.onGrid (cell : Cell) (tie : Tie) (exponent : Int) : Option Nat :=
  -- a cell number `x` stands at the place `x * num / den` of the grid
  let num := Nat.pow 2 cell.scale.toNat * Nat.pow 10 (-exponent).toNat
  let den := Nat.pow 2 (-cell.scale).toNat * Nat.pow 10 exponent.toNat
  let below := cell.centre * num / den
  let above := below + 1
  let atLeastLower :=
    if cell.closed then cell.lower * num ≤ below * den else cell.lower * num < below * den
  let atMostUpper :=
    if cell.closed then above * den ≤ cell.upper * num else above * den < cell.upper * num
  if atLeastLower then
    if atMostUpper then
      let down := cell.centre * num - below * den
      let up := above * den - cell.centre * num
      if down < up then some below
      else if up < down then some above
      else match tie with
        | .up => some above
        | .even => some (if below % 2 = 0 then below else above)
    else some below
  else if atMostUpper then some above
  else none

/-- The shortest decimal of a positive binary number. Seventeen digits always suffice. -/
def shortest (tie : Tie) (significand : Nat) (exponent : Int) : Decimal :=
  let cell := Cell.of significand exponent
  let top := magnitude significand exponent
  let found := (List.range 17).findSome? fun (places : Nat) =>
    (cell.onGrid tie (top - places)).map fun digits => (⟨digits, top - places⟩ : Decimal)
  stripZeros 20 (found.getD ⟨significand, exponent⟩)

end Decimal

end Reckoner
