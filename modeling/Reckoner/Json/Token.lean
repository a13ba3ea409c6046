import Reckoner.Json.Basic
import Reckoner.Text.Hex

/-!
# JSON tokens

Brackets, commas, colons and the values that have no parts. Blanks may stand between tokens.
-/

namespace Reckoner.Json

inductive Token where
  | openArray
  | closeArray
  | openObject
  | closeObject
  | comma
  | colon
  | null
  | bool (value : Bool)
  | number (value : Numeral)
  | string (value : Option String)
deriving DecidableEq, Repr

/-! ## Texts -/

def escaped? : Char → Option Nat
  | '"' => some 0x22
  | '\\' => some 0x5C
  | '/' => some 0x2F
  | 'b' => some 0x08
  | 'f' => some 0x0C
  | 'n' => some 0x0A
  | 'r' => some 0x0D
  | 't' => some 0x09
  | _ => none

/-- The code points of a text up to its closing quote, behind those seen before, latest first. -/
def points? (seen : List Nat) : List Char → Option (List Nat × List Char)
  | [] => none
  | '"' :: rest => some (seen.reverse, rest)
  | '\\' :: 'u' :: a :: b :: c :: d :: rest =>
    match Text.hexValue? [a, b, c, d] with
    | some n => points? (n :: seen) rest
    | none => none
  | '\\' :: c :: rest =>
    match escaped? c with
    | some n => points? (n :: seen) rest
    | none => none
  | c :: rest => if c.toNat < 0x20 then none else points? (c.toNat :: seen) rest

def isHighSurrogate (n : Nat) : Bool := 0xD800 ≤ n && n < 0xDC00

def isLowSurrogate (n : Nat) : Bool := 0xDC00 ≤ n && n < 0xE000

/--
The text of code points, in which surrogates have to stand in pairs; `seen` holds its beginning,
latest first.
-/
def textOf? (seen : List Char) : List Nat → Option String
  | [] => some (String.ofList seen.reverse)
  | [n] => if isHighSurrogate n || isLowSurrogate n then none else textOf? (Char.ofNat n :: seen) []
  | n :: m :: rest =>
    if isHighSurrogate n then
      if isLowSurrogate m then
        textOf? (Char.ofNat (0x10000 + (n - 0xD800) * 0x400 + (m - 0xDC00)) :: seen) rest
      else none
    else if isLowSurrogate n then none
    else textOf? (Char.ofNat n :: seen) (m :: rest)

/-! ## Numbers -/

def whole? (cs : List Char) : Option (List Char × List Char) :=
  match cs.span Char.isDigit with
  | ([], _) => none
  | ('0' :: more, rest) => some (['0'], more ++ rest)
  | (digits, rest) => some (digits, rest)

def fraction? : List Char → Option (List Char × List Char)
  | '.' :: cs =>
    match cs.span Char.isDigit with
    | ([], _) => none
    | (digits, rest) => some (digits, rest)
  | cs => some ([], cs)

def exponent? : List Char → Option (Option (Bool × List Char) × List Char)
  | [] => some (none, [])
  | c :: cs =>
    if c = 'e' ∨ c = 'E' then
      let (negative, cs) := Numeral.sign cs
      match cs.span Char.isDigit with
      | ([], _) => none
      | (digits, rest) => some (some (negative, digits), rest)
    else some (none, c :: cs)

def numeral? (cs : List Char) : Option (Numeral × List Char) := do
  let (negative, cs) :=
    match cs with
    | '-' :: cs => (true, cs)
    | cs => (false, cs)
  let (whole, cs) ← whole? cs
  let (fraction, cs) ← fraction? cs
  let (exponent, cs) ← exponent? cs
  return (⟨negative, whole, fraction, exponent⟩, cs)

/-! ## Tokens -/

def token? : List Char → Option (Token × List Char)
  | '[' :: cs => some (.openArray, cs)
  | ']' :: cs => some (.closeArray, cs)
  | '\x7b' :: cs => some (.openObject, cs)
  | '\x7d' :: cs => some (.closeObject, cs)
  | ',' :: cs => some (.comma, cs)
  | ':' :: cs => some (.colon, cs)
  | 'n' :: 'u' :: 'l' :: 'l' :: cs => some (.null, cs)
  | 't' :: 'r' :: 'u' :: 'e' :: cs => some (.bool true, cs)
  | 'f' :: 'a' :: 'l' :: 's' :: 'e' :: cs => some (.bool false, cs)
  | '"' :: cs => (points? [] cs).map fun (points, cs) => (.string (textOf? [] points), cs)
  | cs => (numeral? cs).map fun (n, cs) => (.number n, cs)

def isSpace (c : Char) : Bool := c = ' ' || c = '\t' || c = '\n' || c = '\r'

/-- At most `fuel` tokens, behind those seen before, latest first. -/
def scanFrom : (fuel : Nat) → (seen : List Token) → List Char → Option (List Token)
  | 0, seen, cs => if cs.all isSpace then some seen.reverse else none
  | fuel + 1, seen, cs =>
    match cs.dropWhile isSpace with
    | [] => some seen.reverse
    | c :: cs =>
      match token? (c :: cs) with
      | some (token, rest) => scanFrom fuel (token :: seen) rest
      | none => none

/--
The tokens of a text. A token has at least one character, so there are no more of them than
characters.
-/
def scan (cs : List Char) : Option (List Token) := scanFrom cs.length [] cs

end Reckoner.Json
