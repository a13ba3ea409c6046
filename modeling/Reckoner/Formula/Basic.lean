import Reckoner.Decimal.Layout
import Reckoner.Operation

/-!
# Formulas

Arithmetic over binary64 numbers with four operators, as a tree.
-/

namespace Reckoner

inductive Operator where
  | add
  | sub
  | mul
  | div
deriving DecidableEq, Repr

namespace Operator

def symbol : Operator → Char
  | add => '+'
  | sub => '-'
  | mul => '*'
  | div => '/'

def ofChar? : Char → Option Operator
  | '+' => some add
  | '-' => some sub
  | '*' => some mul
  | '/' => some div
  | _ => none

/-- Whether the operator binds tighter than addition and subtraction. -/
def isMultiplicative : Operator → Bool
  | add => false
  | sub => false
  | mul => true
  | div => true

def operation : Operator → Operation
  | add => .addition
  | sub => .subtraction
  | mul => .multiplication
  | div => .division

end Operator

inductive Formula where
  | number (value : Float)
  | binary (op : Operator) (left right : Formula)
deriving Repr

namespace Formula

/-- The value of the formula, or the division by zero that keeps it from having one. -/
def eval : Formula → Except Fault Float
  | number value => .ok value
  | binary op left right => do op.operation.apply (← left.eval) (← right.eval)

def size : Formula → Nat
  | number _ => 1
  | binary _ left right => 1 + left.size + right.size

def render : Formula → String
  | number value => Layout.plain.text value
  | binary op left right => s!"({left.render} {op.symbol} {right.render})"

end Formula

end Reckoner
