import Reckoner.Formula.Basic
import Reckoner.Text.Blank

/-!
# Tokens

Operators and parentheses are tokens by themselves; every longest run of other characters without
white space is an atom.
-/

namespace Reckoner

inductive Token where
  | op (op : Operator)
  | openParen
  | closeParen
  /-- A run of other characters, which may or may not be a number. -/
  | atom (text : String)
deriving DecidableEq, Repr

namespace Token

def text : Token → String
  | op o => String.singleton o.symbol
  | openParen => "("
  | closeParen => ")"
  | atom text => text

def ofChar? : Char → Option Token
  | '(' => some openParen
  | ')' => some closeParen
  | c => (Operator.ofChar? c).map op

/--
Puts the atom with the given characters, latest first, before the tokens; no characters make no
atom.
-/
def consAtom (run : List Char) (rest : List Token) : List Token :=
  if run.isEmpty then rest else atom (String.ofList run.reverse) :: rest

/-- The tokens of the rest of a text, after the run of an atom that has begun, latest first. -/
def scanFrom (run : List Char) : List Char → List Token
  | [] => consAtom run []
  | c :: cs =>
    match ofChar? c with
    | some token => consAtom run (token :: scanFrom [] cs)
    | none =>
      if Text.isBlank c then consAtom run (scanFrom [] cs) else scanFrom (c :: run) cs

def scan (text : String) : List Token := scanFrom [] text.toList

end Token

end Reckoner
