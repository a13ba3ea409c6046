/-!
# Binary64 numbers taken apart

A finite number is a sign and `significand * 2 ^ exponent`, exactly.
-/

namespace Reckoner

inductive Binary64 where
  | nan
  | infinite (negative : Bool)
  | finite (negative : Bool) (significand : Nat) (exponent : Int)
deriving DecidableEq, Repr

/-- The bit that normal numbers have in front of the fifty-two bits of their fraction. -/
def Binary64.hiddenBit : Nat := 0x10000000000000

/-- One bit of sign, eleven of exponent, fifty-two of fraction. -/
def Binary64.ofFloat (x : Float) : Binary64 :=
  let bits := x.toBits.toNat
  let negative := bits >>> 63 == 1
  let scale : Nat := bits >>> 52 % 2048
  let fraction : Nat := bits % hiddenBit
  if scale = 2047 then
    if fraction = 0 then .infinite negative else .nan
  else if scale = 0 then .finite negative fraction (-1074)
  else .finite negative (hiddenBit + fraction) ((scale : Int) - 1075)

/-- Whether the next smaller number is only half as far away as the next larger one. -/
def Binary64.isNarrowBelow (significand : Nat) (exponent : Int) : Bool :=
  significand == hiddenBit && exponent != -1074

end Reckoner
