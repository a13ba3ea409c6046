import Reckoner.Decimal.Numeral
import Reckoner.Text.Hex

/-!
# Socket addresses

A host and the number of a service on it. The host is four numbers between points, or up to eight
groups of hexadecimal digits in brackets. Two colons stand for groups of zeros; the last two groups
may be written as four numbers.
-/

namespace Reckoner.Address

def number? (limit : Nat) (cs : List Char) : Option (List Char) :=
  let (digits, rest) := cs.span Char.isDigit
  if digits ≠ [] ∧ Numeral.valueOf digits < limit then some rest else none

def skip? (c : Char) : List Char → Option (List Char)
  | d :: cs => if d = c then some cs else none
  | [] => none

def octet? (cs : List Char) : Option (List Char) :=
  match cs with
  | '0' :: c :: cs => if c.isDigit then none else some (c :: cs)
  | cs => number? 256 cs

def fourNumbers? (cs : List Char) : Option (List Char) := do
  octet? (← skip? '.' (← octet? (← skip? '.' (← octet? (← skip? '.' (← octet? cs))))))

def group? (cs : List Char) : Option (List Char) :=
  let (digits, rest) := cs.span fun c => (Text.hexDigit? c).isSome
  if 1 ≤ digits.length ∧ digits.length ≤ 4 then some rest else none

structure Groups where
  count : Nat
  /-- Whether the last two groups are written as four numbers. -/
  endsInNumbers : Bool
  rest : List Char

/--
The groups between colons, `limit` of them at most; all but the first have a colon before them.
-/
def groups (isFirst : Bool) : (limit : Nat) → List Char → Groups
  | 0, cs => ⟨0, false, cs⟩
  | limit + 1, cs =>
    match if isFirst then some cs else skip? ':' cs with
    | none => ⟨0, false, cs⟩
    | some body =>
      match if 0 < limit then fourNumbers? body else none with
      | some rest => ⟨2, true, rest⟩
      | none =>
        match group? body with
        | none => ⟨0, false, cs⟩
        | some rest =>
          let more := groups false limit rest
          { more with count := more.count + 1 }

/-- Eight groups, or fewer around two colons, before which no numbers stand. -/
def eightGroups? (cs : List Char) : Option (List Char) :=
  let head := groups true 8 cs
  if head.count = 8 then some head.rest
  else if head.endsInNumbers then none
  else do
    let rest ← skip? ':' (← skip? ':' head.rest)
    return (groups true (7 - head.count) rest).rest

def scope? : List Char → Option (List Char)
  | '%' :: cs => number? UInt32.size cs
  | cs => some cs

def service? (cs : List Char) : Option (List Char) := do number? UInt16.size (← skip? ':' cs)

def bracketed? (cs : List Char) : Option (List Char) := do
  skip? ']' (← scope? (← eightGroups? (← skip? '[' cs)))

def isValid (text : String) : Bool :=
  let cs := text.toList
  ((fourNumbers? cs).bind service? == some []) || ((bracketed? cs).bind service? == some [])

end Reckoner.Address
