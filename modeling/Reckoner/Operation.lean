import Reckoner.Fault

/-!
# Operations

The arithmetic step that a task performs.
-/

namespace Reckoner

inductive Operation where
  | addition
  | subtraction
  | multiplication
  | division
  /-- A literal: its result is the first operand. -/
  | value
deriving DecidableEq, Repr

namespace Operation

def name : Operation → String
  | addition => "ADDITION"
  | subtraction => "SUBTRACTION"
  | multiplication => "MULTIPLICATION"
  | division => "DIVISION"
  | value => "VALUE"

def all : List Operation := [addition, subtraction, multiplication, division, value]

/-- Division by a zero of either sign fails; everything else follows binary64 arithmetic. -/
def apply (op : Operation) (a b : Float) : Except Fault Float :=
  match op with
  | addition => .ok (a + b)
  | subtraction => .ok (a - b)
  | multiplication => .ok (a * b)
  | division => if b == 0 then .error .divisionByZero else .ok (a / b)
  | value => .ok a

end Operation

end Reckoner
