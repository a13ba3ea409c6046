import Reckoner.Decimal.Shortest
import Reckoner.Decimal.Numeral

/-!
# Layouts of floating point numbers

A layout says how the shortest digits of a number are arranged: where positional notation ends,
whether a whole number shows a fraction, and what stands for the values without digits.
-/

namespace Reckoner

structure Layout where
  tie : Decimal.Tie
  /-- Whether a number of this decimal magnitude is written without an exponent. -/
  positional : Int → Bool
  /-- Whether a positional whole number ends in `.0`. -/
  showsFraction : Bool
  nan : String
  infinity : String
  negativeInfinity : String

namespace Layout

/-- Numbers in running text: no exponent, no idle fraction. An exact half goes up. -/
def plain : Layout where
  tie := .up
  positional _ := true
  showsFraction := false
  nan := "NaN"
  infinity := "inf"
  negativeInfinity := "-inf"

/--
Numbers in JSON: an exponent below `0.00001` and from `1e16` on; values without digits are `null`.
-/
def json : Layout where
  tie := .even
  positional magnitude := -5 ≤ magnitude && magnitude < 16
  showsFraction := true
  nan := "null"
  infinity := "null"
  negativeInfinity := "null"

/-- The digits before and after the point of `digits * 10 ^ exponent`. -/
def split (digits : List Char) (exponent : Int) : List Char × List Char :=
  if 0 ≤ exponent then (digits ++ List.replicate exponent.toNat '0', [])
  else
    let places := (-exponent).toNat
    if places < digits.length then digits.splitAt (digits.length - places)
    else (['0'], List.replicate (places - digits.length) '0' ++ digits)

def arrange (layout : Layout) (negative : Bool) (decimal : Decimal) : Numeral :=
  let digits := Nat.toDigits 10 decimal.digits
  let magnitude := decimal.exponent + digits.length - 1
  if layout.positional magnitude then
    let (whole, fraction) := split digits decimal.exponent
    ⟨negative, whole, if layout.showsFraction && fraction.isEmpty then ['0'] else fraction, none⟩
  else
    ⟨negative, digits.take 1, digits.drop 1, some (magnitude < 0, Nat.toDigits 10 magnitude.natAbs)⟩

def numeral? (layout : Layout) (x : Float) : Option Numeral :=
  match Binary64.ofFloat x with
  | .nan => none
  | .infinite _ => none
  | .finite negative 0 _ => some (layout.arrange negative ⟨0, 0⟩)
  | .finite negative significand exponent =>
    some (layout.arrange negative (Decimal.shortest layout.tie significand exponent))

def text (layout : Layout) (x : Float) : String :=
  match layout.numeral? x with
  | some numeral => numeral.text
  | none =>
    match Binary64.ofFloat x with
    | .infinite false => layout.infinity
    | .infinite true => layout.negativeInfinity
    | _ => layout.nan

end Layout

end Reckoner
