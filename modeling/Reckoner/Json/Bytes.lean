import Reckoner.Json.Reader

/-!
# Reading JSON from bytes

A byte that is part of no character is part of no token, but in quotes it is passed over with them:
the text is then none, which matters only if it is looked at.
-/

namespace Reckoner.Json

/--
What is read for a byte that is part of no character: no token, no escape, and in quotes a surrogate
alone.
-/
def stray : List Char := ['x', '\\', 'u', 'd', '8', '0', '0', ' ']

/-- The characters from place `i` on. Each takes at least one byte of the `fuel`. -/
def charsFrom (bytes : ByteArray) : (fuel i : Nat) → List Char
  | 0, _ => []
  | fuel + 1, i =>
    if i < bytes.size then
      match bytes.utf8DecodeChar? i with
      | some c => c :: charsFrom bytes fuel (i + c.utf8Size)
      | none => stray ++ charsFrom bytes fuel (i + 1)
    else []

def parseBytes? (bytes : ByteArray) : Option Json :=
  do ofTokens? (← scan (charsFrom bytes bytes.size 0))

end Reckoner.Json
