import Reckoner.Decimal.Numeral
import Reckoner.Text.Hex
import Reckoner.Toml.Basic

/-!
# Numbers in TOML

Integers have 64 bits with sign. An underscore may stand between two digits.
-/

namespace Reckoner.Toml

/-- Further digits of a row, an underscore before each at most. -/
def moreDigits? (isDigit : Char → Bool) : List Char → Option (List Char × List Char)
  | [] => some ([], [])
  | '_' :: c :: cs =>
    if isDigit c then (moreDigits? isDigit cs).map fun (digits, rest) => (c :: digits, rest)
    else none
  | '_' :: [] => none
  | c :: cs =>
    if isDigit c then (moreDigits? isDigit cs).map fun (digits, rest) => (c :: digits, rest)
    else some ([], c :: cs)

def digits? (isDigit : Char → Bool) : List Char → Option (List Char × List Char)
  | '_' :: _ => none
  | cs =>
    match moreDigits? isDigit cs with
    | some ([], _) => none
    | found => found

def whole? : List Char → Option (List Char × List Char)
  | '0' :: cs => some (['0'], cs)
  | cs => digits? Char.isDigit cs

def bounded? (n : Int) : Option Toml :=
  if -(integerLimit : Int) ≤ n ∧ n < integerLimit then some (.integer n) else none

def isDigitBelow (base : Nat) (c : Char) : Bool := (Text.hexDigit? c).any (· < base)

def based? (base : Nat) (cs : List Char) : Option (Toml × List Char) := do
  let (digits, rest) ← digits? (isDigitBelow base) cs
  let n := digits.foldl (fun (n : Nat) c => base * n + (Text.hexDigit? c).getD 0) 0
  return (← bounded? n, rest)

def integer? : List Char → Option (Toml × List Char)
  | '0' :: 'x' :: cs => based? 16 cs
  | '0' :: 'o' :: cs => based? 8 cs
  | '0' :: 'b' :: cs => based? 2 cs
  | cs => do
    let (negative, cs) := Numeral.sign cs
    let (digits, rest) ← whole? cs
    let n : Int := Numeral.valueOf digits
    return (← bounded? (if negative then -n else n), rest)

/-! ## Floating point numbers -/

def fraction? : List Char → Option (List Char × List Char)
  | '.' :: cs => digits? Char.isDigit cs
  | _ => none

def exponent? : List Char → Option ((Bool × List Char) × List Char)
  | c :: cs => do
    if c ≠ 'e' ∧ c ≠ 'E' then none
    let (negative, cs) := Numeral.sign cs
    let (digits, rest) ← digits? Char.isDigit cs
    return ((negative, digits), rest)
  | [] => none

/--
A number with a fraction, an exponent or both. Those above the range are refused, those below it are
not.
-/
def decimal? (cs : List Char) : Option (Toml × List Char) := do
  let (negative, cs) := Numeral.sign cs
  let (whole, cs) ← whole? cs
  let (fraction, exponent, rest) ←
    match exponent? cs with
    | some (exponent, rest) => some ([], some exponent, rest)
    | none => do
      let (fraction, cs) ← fraction? cs
      match exponent? cs with
      | some (exponent, rest) => some (fraction, some exponent, rest)
      | none => some (fraction, none, cs)
  let x := (Numeral.mk negative whole fraction exponent).nearest
  if x.isInf ∧ ¬negative then none else return (.float x, rest)

def special? (cs : List Char) : Option (Toml × List Char) :=
  let (negative, cs) := Numeral.sign cs
  let signed := fun (x : Float) => Toml.float (if negative then -x else x)
  match cs with
  | 'i' :: 'n' :: 'f' :: rest => some (signed (1.0 / 0.0), rest)
  | 'n' :: 'a' :: 'n' :: rest => some (signed (0.0 / 0.0), rest)
  | _ => none

def number? (cs : List Char) : Option (Toml × List Char) :=
  (decimal? cs).or ((special? cs).or (integer? cs))

end Reckoner.Toml
