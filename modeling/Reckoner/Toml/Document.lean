import Reckoner.Toml.Value

/-!
# TOML documents

A document is a list of statements: headers, which open a table, and pairs of a key and a value,
which belong to the table opened last.
-/

namespace Reckoner.Toml

inductive Statement where
  | table (path : List String) (key : String)
  | element (path : List String) (key : String)
  | pair (path : List String) (key : String) (value : Toml)
deriving Repr

/-! ## Statements -/

/-- A line ends in a line feed, before which a carriage return may stand. -/
def joinLineEnds : List Char → List Char
  | '\r' :: '\n' :: cs => '\n' :: joinLineEnds cs
  | c :: cs => c :: joinLineEnds cs
  | [] => []

def lineEnd? (cs : List Char) : Option (List Char) :=
  let rest :=
    match skipBlanks cs with
    | '#' :: cs => cs.dropWhile isPlain
    | cs => cs
  match rest with
  | [] => some []
  | '\n' :: cs => some cs
  | _ => none

def statement? : List Char → Option (Statement × List Char)
  | '[' :: '[' :: cs => do
    let ((path, key), cs) ← key? cs
    let cs ← skip? ']' (← skip? ']' cs)
    return (.element path key, cs)
  | '[' :: cs => do
    let ((path, key), cs) ← key? cs
    return (.table path key, ← skip? ']' cs)
  | cs => do
    let (((path, key), value), cs) ← pair? (value? maxDepth) cs
    return (.pair path key value, cs)

def statements? : (fuel : Nat) → List Char → Option (List Statement)
  | 0, cs => if cs.isEmpty then some [] else none
  | fuel + 1, cs =>
    match skipBlanks cs with
    | [] => some []
    | '\n' :: cs => statements? fuel cs
    | '#' :: cs => do statements? fuel (← lineEnd? ('#' :: cs))
    | cs => do
      let (statement, cs) ← statement? cs
      return statement :: (← statements? fuel (← lineEnd? cs))

/-! ## Documents -/

/-- The tables built so far, and the path of the one that is open. -/
structure Document where
  root : Table
  opened : List String

def Document.step? (d : Document) : Statement → Option Document
  | .table path key =>
    do return ⟨← within? false (openTable? key) path .header d.root, path ++ [key]⟩
  | .element path key =>
    do return ⟨← within? false (openElement? key) path .header d.root, path ++ [key]⟩
  | .pair path key value => do
    return { d with root := ← within? false (assign? path key value) d.opened .header d.root }

def skipMark : List Char → List Char
  | '\uFEFF' :: cs => cs
  | cs => cs

def parse? (text : String) : Option Table := do
  let cs := joinLineEnds (skipMark text.toList)
  let statements ← statements? (cs.length + 1) cs
  return (← statements.foldlM Document.step? ⟨[], []⟩).root

end Reckoner.Toml
