import Reckoner.Text.Hex

/-!
# Request targets

A target is a path, which a query may follow. The segments of the path are percent-encoded.
-/

namespace Reckoner.Http

def path (target : String) : List Char := target.toList.takeWhile fun c => c ≠ '?' ∧ c ≠ '#'

def segments? : List Char → Option (List (List Char))
  | '/' :: cs => some (cs.splitOn '/')
  | _ => none

/-- The bytes of percent-encoded text. A percent sign without two digits stands for itself. -/
def decodedBytes : List Char → List UInt8
  | [] => []
  | '%' :: a :: b :: cs =>
    match Text.hexValue? [a, b] with
    | some n => n.toUInt8 :: decodedBytes cs
    | none => 0x25 :: decodedBytes (a :: b :: cs)
  | c :: cs => (String.singleton c).toUTF8.toList ++ decodedBytes cs
termination_by cs => cs.length

def decode? (segment : List Char) : Option String :=
  String.fromUTF8? ⟨(decodedBytes segment).toArray⟩

end Reckoner.Http
