import Reckoner.Toml.DateTime
import Reckoner.Toml.Number
import Reckoner.Toml.Table
import Reckoner.Toml.Text

/-!
# Reading TOML values

Keys, and values between which arrays allow line ends and comments. Inline tables stand on one line.
-/

namespace Reckoner.Toml

/-! ## Keys -/

def isBareKeyChar (c : Char) : Bool := c.isAlphanum || c = '-' || c = '_'

def simpleKey? (cs : List Char) : Option (String × List Char) :=
  match cs.span isBareKeyChar with
  | ([], cs) => line? cs
  | (name, rest) => some (String.ofList name, rest)

def keyParts? : (fuel : Nat) → List Char → Option (List String × List Char)
  | 0, _ => none
  | fuel + 1, cs => do
    let (part, cs) ← simpleKey? (skipBlanks cs)
    match skipBlanks cs with
    | '.' :: cs => do
      let (parts, cs) ← keyParts? fuel cs
      return (part :: parts, cs)
    | cs => return ([part], cs)

def key? (cs : List Char) : Option ((List String × String) × List Char) := do
  let (parts, cs) ← keyParts? maxDepth cs
  return ((parts.dropLast, ← parts.getLast?), cs)

/-! ## Values -/

def skipLines? (inComment : Bool) : List Char → Option (List Char)
  | [] => some []
  | c :: cs =>
    if c = '\n' then skipLines? false cs
    else if inComment then if isPlain c then skipLines? true cs else none
    else if isBlank c then skipLines? false cs
    else if c = '#' then skipLines? true cs
    else some (c :: cs)

def scalar? : List Char → Option (Toml × List Char)
  | 't' :: 'r' :: 'u' :: 'e' :: cs => some (.boolean true, cs)
  | 'f' :: 'a' :: 'l' :: 's' :: 'e' :: cs => some (.boolean false, cs)
  | '"' :: cs => (text? ('"' :: cs)).map fun (s, cs) => (.string s, cs)
  | '\'' :: cs => (text? ('\'' :: cs)).map fun (s, cs) => (.string s, cs)
  | cs => (dateTime? cs).or (number? cs)

section
variable (value? : List Char → Option (Toml × List Char))

/--
The items of an array behind its bracket, `fuel` of them at most. The last one may have a comma.
-/
def items? : (fuel : Nat) → List Char → Option (List Toml × List Char)
  | 0, _ => none
  | fuel + 1, cs => do
    match ← skipLines? false cs with
    | ']' :: cs => return ([], cs)
    | cs =>
      let (item, cs) ← value? cs
      match ← skipLines? false cs with
      | ']' :: cs => return ([item], cs)
      | ',' :: cs =>
        let (items, cs) ← items? fuel cs
        return (item :: items, cs)
      | _ => none

def pair? (cs : List Char) : Option (((List String × String) × Toml) × List Char) := do
  let (key, cs) ← key? cs
  let (value, cs) ← value? (skipBlanks (← skip? '=' cs))
  return ((key, value), cs)

/--
The pairs of an inline table, at least one and `fuel` at most, added to the entries before them.
-/
def pairs? : (fuel : Nat) → Table → List Char → Option (Table × List Char)
  | 0, _, _ => none
  | fuel + 1, entries, cs => do
    let (((path, key), value), cs) ← pair? value? cs
    let entries ← assign? path key value .inline entries
    match skipBlanks cs with
    | '\x7d' :: cs => return (entries, cs)
    | ',' :: cs => pairs? fuel entries cs
    | _ => none

def inlineTable? (cs : List Char) : Option (Toml × List Char) :=
  match skipBlanks cs with
  | '\x7d' :: cs => some (.table .inline [], cs)
  | cs => (pairs? value? cs.length [] cs).map fun (entries, cs) => (.table .inline entries, cs)

end

/-- A value with at most `depth` levels of arrays and inline tables. -/
def value? : (depth : Nat) → List Char → Option (Toml × List Char)
  | 0, cs => scalar? cs
  | depth + 1, '[' :: cs => (items? (value? depth) cs.length cs).map fun (items, cs) =>
    (.array items, cs)
  | depth + 1, '\x7b' :: cs => inlineTable? (value? depth) cs
  | _ + 1, cs => scalar? cs

end Reckoner.Toml
