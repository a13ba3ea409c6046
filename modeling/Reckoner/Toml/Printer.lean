import Reckoner.Toml.Basic

/-!
# Writing TOML

Lines of keys and values, and headers in front of them. Texts are written in quotes on one line.
-/

namespace Reckoner.Toml

def hex8 (n : Nat) : List Char :=
  (List.range 8).map fun i => (Nat.digitChar (n >>> (4 * (7 - i)) % 16)).toUpper

def escape (c : Char) : List Char :=
  match c with
  | '"' => ['\\', '"']
  | '\\' => ['\\', '\\']
  | c => if isPlain c then [c] else '\\' :: 'U' :: hex8 c.toNat

def quote (s : String) : String := String.ofList ('"' :: s.toList.flatMap escape ++ ['"'])

def textLine (key value : String) : String := s!"{key} = {quote value}\n"

def numberLine? (key : String) (value : UInt64) : Option String :=
  if value.toNat < integerLimit then some s!"{key} = {value.toNat}\n" else none

def headerLine (key : String) : String := s!"\n[{key}]\n"

end Reckoner.Toml
