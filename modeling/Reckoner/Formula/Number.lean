import Reckoner.Decimal.Numeral

/-!
# Numbers in formulas

A text is a number when it is `inf`, `infinity` or `nan` in any case, or has decimal digits with
at most one point among them and at most one exponent behind them. The number and its exponent may
have signs, but an atom of a formula holds none.
-/

namespace Reckoner.Formula

def namedNumber? (word : List Char) : Option Float :=
  match String.ofList (word.map Char.toLower) with
  | "inf" => some (1.0 / 0.0)
  | "infinity" => some (1.0 / 0.0)
  | "nan" => some (0.0 / 0.0)
  | _ => none

def exponent? : List Char → Option (Option (Bool × List Char))
  | [] => some none
  | c :: cs =>
    let (negative, digits) := Numeral.sign cs
    if (c = 'e' ∨ c = 'E') ∧ digits ≠ [] ∧ digits.all Char.isDigit then
      some (some (negative, digits))
    else none

def numeral? (negative : Bool) (cs : List Char) : Option Numeral := do
  let (whole, rest) := cs.span Char.isDigit
  let (fraction, rest) :=
    match rest with
    | '.' :: rest => rest.span Char.isDigit
    | _ => ([], rest)
  if whole = [] ∧ fraction = [] then none
  else return ⟨negative, whole, fraction, ← exponent? rest⟩

/-- The number that a text stands for, correctly rounded. -/
def number? (text : String) : Option Float :=
  let (negative, cs) := Numeral.sign text.toList
  let named := (namedNumber? cs).map fun x => if negative then -x else x
  named.or ((numeral? negative cs).map Numeral.nearest)

end Reckoner.Formula
