import Reckoner.Text.Hex
import Std.Data.TreeMap

/-!
# Identifiers

A UUID is 128 bits, written as 32 hexadecimal digits in groups of 8, 4, 4, 4 and 12. Tasks and
expressions have identifiers of different types over it.
-/

namespace Reckoner

structure Uuid where
  bits : BitVec 128
deriving DecidableEq, Repr

namespace Uuid

/-! ## Reading -/

def groups : List Nat := [8, 4, 4, 4, 12]

/-- Takes the hyphens out of a text in groups of exactly these lengths. -/
def ungroup? : List Nat → List Char → Option (List Char)
  | [], _ => none
  | [n], cs => if cs.length = n then some cs else none
  | n :: m :: ns, cs =>
    match cs.drop n with
    | '-' :: rest => (ungroup? (m :: ns) rest).map (cs.take n ++ ·)
    | _ => none

def ofDigits? (cs : List Char) : Option Uuid :=
  if cs.length = 32 then (Text.hexValue? cs).map fun n => ⟨BitVec.ofNat 128 n⟩ else none

def ofHyphenated? (cs : List Char) : Option Uuid := (ungroup? groups cs).bind ofDigits?

def urnScheme : List Char := "urn:uuid:".toList

/--
Reads the 32 digits alone, in hyphenated groups, in groups within braces, or in groups after the
URN scheme. Digits may have any case.
-/
def parse? (text : String) : Option Uuid :=
  let cs := text.toList
  match cs with
  | '\x7b' :: rest => if rest.getLast? = some '\x7d' then ofHyphenated? rest.dropLast else none
  | _ =>
    if urnScheme.isPrefixOf cs then ofHyphenated? (cs.drop urnScheme.length)
    else (ofDigits? cs).or (ofHyphenated? cs)

/-! ## Writing -/

def digits (u : Uuid) : List Char :=
  (List.range 32).map fun i => Nat.digitChar (u.bits.toNat >>> (4 * (31 - i)) % 16)

def group : List Nat → List Char → List Char
  | [], cs => cs
  | [_], cs => cs
  | n :: m :: ns, cs => cs.take n ++ '-' :: group (m :: ns) (cs.drop n)

def text (u : Uuid) : String := String.ofList (group groups u.digits)

def short (u : Uuid) : String := String.ofList (u.digits.take 8)

end Uuid

inductive IdKind where
  | task
  | expression
deriving DecidableEq

structure Id (kind : IdKind) where
  uuid : Uuid
deriving DecidableEq, Repr

abbrev TaskId := Id .task
abbrev ExpressionId := Id .expression

namespace Id

variable {kind : IdKind}

def ofNat (n : Nat) : Id kind := ⟨⟨BitVec.ofNat 128 n⟩⟩

def parse? (text : String) : Option (Id kind) := (Uuid.parse? text).map Id.mk

def text (id : Id kind) : String := id.uuid.text

def short (id : Id kind) : String := id.uuid.short

/-! ## Order

Identifiers are ordered as numbers, which is the order of their texts. -/

def bits (id : Id kind) : BitVec 128 := id.uuid.bits

theorem bits_inj {a b : Id kind} (h : a.bits = b.bits) : a = b := by
  cases a with | mk a => cases b with | mk b => cases a; cases b; simp_all [bits]

instance : Ord (Id kind) := ⟨compareOn bits⟩

instance : Std.TransOrd (Id kind) := inferInstanceAs (Std.TransCmp (compareOn bits))

instance : Std.LawfulEqOrd (Id kind) where
  eq_of_compare h := bits_inj (Std.compare_eq_iff_eq.1 h)

end Id

end Reckoner
