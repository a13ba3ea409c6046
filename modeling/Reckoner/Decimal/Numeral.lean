/-!
# Written decimal numbers

A numeral keeps the digits as they are written. `Numeral.text` writes it, `Numeral.nearest` is
the binary64 number nearest to it.
-/

namespace Reckoner

/-- The digits of a decimal number: `-12.50e+3` has whole `12`, fraction `50` and exponent `+3`. -/
structure Numeral where
  negative : Bool
  whole : List Char
  fraction : List Char
  /-- Whether the exponent is negative, and its digits. -/
  exponent : Option (Bool × List Char)
deriving DecidableEq, Repr

namespace Numeral

def valueOf (digits : List Char) : Nat :=
  digits.foldl (fun n c => 10 * n + (c.toNat - '0'.toNat)) 0

/-- Whether the text begins with a minus sign, and what stands behind its sign, if it has one. -/
def sign : List Char → Bool × List Char
  | '-' :: cs => (true, cs)
  | '+' :: cs => (false, cs)
  | cs => (false, cs)

def power (n : Numeral) : Int :=
  match n.exponent with
  | none => 0
  | some (negative, digits) => if negative then -(valueOf digits : Int) else valueOf digits

/-- A point stands before a fraction that is not empty; an exponent always has its sign. -/
def text (n : Numeral) : String :=
  String.ofList <|
    (if n.negative then ['-'] else []) ++ n.whole ++
    (if n.fraction = [] then [] else '.' :: n.fraction) ++
    (match n.exponent with
      | none => []
      | some (negative, digits) => 'e' :: (if negative then '-' else '+') :: digits)

/-- The largest decimal exponent at which a binary64 number can be finite and not zero. -/
def maxPower : Int := 400

/--
The nearest binary64 number, ties to even. Numbers beyond the range are infinite, and those too
small are zero; the bounds keep the powers of ten small.
-/
def nearest (n : Numeral) : Float :=
  let digits := valueOf (n.whole ++ n.fraction)
  let power := n.power - n.fraction.length
  let magnitude :=
    if digits = 0 then 0.0
    else
      let top := power + (Nat.toDigits 10 digits).length
      if maxPower < top then 1.0 / 0.0
      else if top < -maxPower then 0.0
      else if 0 ≤ power then Float.ofScientific digits false power.toNat
      else Float.ofScientific digits true (-power).toNat
  if n.negative then -magnitude else magnitude

end Numeral

end Reckoner
