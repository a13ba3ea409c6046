/-!
# TOML values

A document is a table. A table remembers how it came about, because that decides which later lines
may add to it.
-/

namespace Reckoner

inductive Toml.Origin where
  /-- Between braces; nothing can be added to it. -/
  | inline
  /-- By a header of its own. -/
  | header
  /-- On the way to a table with a header. -/
  | path
  /-- On the way to the last part of a dotted key. -/
  | dotted
deriving DecidableEq, Repr

inductive Toml where
  | string (value : String)
  | integer (value : Int)
  | float (value : Float)
  | boolean (value : Bool)
  /-- A date, a time or both, as it is written. -/
  | dateTime (text : String)
  | array (items : List Toml)
  | table (origin : Toml.Origin) (entries : List (String × Toml))
  /-- Tables that headers in double brackets have added, in their order. -/
  | tables (items : List (List (String × Toml)))
deriving Repr

namespace Toml

abbrev Table := List (String × Toml)

/-- How deep values may be nested, and how many parts a dotted key may have. -/
def maxDepth : Nat := 79

/-- Integers have 64 bits with sign: this is the least number that is too large. -/
def integerLimit : Nat := 0x8000000000000000

/-! ## Characters -/

def isBlank (c : Char) : Bool := c = ' ' || c = '\t'

/-- The characters that may stand in comments and, but for delimiters, in texts of one line. -/
def isPlain (c : Char) : Bool := c = '\t' || (0x20 ≤ c.toNat && c.toNat != 0x7F)

def skipBlanks (cs : List Char) : List Char := cs.dropWhile isBlank

end Toml

end Reckoner
