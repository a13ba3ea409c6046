import Reckoner.Json.Basic

/-!
# Writing JSON

Values are written without white space. In texts only quotes, backslashes and control characters
are escaped.
-/

namespace Reckoner.Json

def hex4 (n : Nat) : List Char :=
  [n / 4096 % 16, n / 256 % 16, n / 16 % 16, n % 16].map Nat.digitChar

def escape (c : Char) : List Char :=
  match c with
  | '"' => ['\\', '"']
  | '\\' => ['\\', '\\']
  | '\x08' => ['\\', 'b']
  | '\x0c' => ['\\', 'f']
  | '\n' => ['\\', 'n']
  | '\r' => ['\\', 'r']
  | '\t' => ['\\', 't']
  | c => if c.toNat < 0x20 then '\\' :: 'u' :: hex4 c.toNat else [c]

/-- A text in quotes. What is no text is written as an unpaired surrogate. -/
def quote : Option String → List Char
  | some s => '"' :: s.toList.flatMap escape ++ ['"']
  | none => '"' :: '\\' :: 'u' :: hex4 0xD800 ++ ['"']

mutual

def chars : Json → List Char
  | null => "null".toList
  | bool true => "true".toList
  | bool false => "false".toList
  | number n => n.text.toList
  | string s => quote s
  | array [] => ['[', ']']
  | array (item :: items) => '[' :: item.chars ++ itemChars items
  | object [] => ['\x7b', '\x7d']
  | object ((name, value) :: members) =>
    '\x7b' :: quote name ++ ':' :: value.chars ++ memberChars members

def itemChars : List Json → List Char
  | [] => [']']
  | item :: items => ',' :: item.chars ++ itemChars items

def memberChars : List (Option String × Json) → List Char
  | [] => ['\x7d']
  | (name, value) :: members => ',' :: quote name ++ ':' :: value.chars ++ memberChars members

end

def render (j : Json) : String := String.ofList j.chars

end Reckoner.Json
