import Reckoner.Formula.Number
import Reckoner.Formula.Token

/-!
# Reading formulas

The text is read once from left to right. Multiplication and division bind tighter than addition
and subtraction, and operators of one rank group to the left. There are no signs and no implied
multiplications.
-/

namespace Reckoner.Formula

/-- A left operand and the operator that waits for its right one. -/
structure Waiting where
  left : Formula
  op : Operator

def Waiting.close (w : Waiting) (right : Formula) : Formula := .binary w.op w.left right

/-- What one open parenthesis, or the whole text, holds before the operand at hand. -/
structure Level where
  sum : Option Waiting
  product : Option Waiting

namespace Level

def start : Level := ⟨none, none⟩

/-- The operand joined to the factors before it. -/
def factor (level : Level) (operand : Formula) : Formula :=
  match level.product with
  | none => operand
  | some w => w.close operand

/-- The operand joined to everything before it. -/
def total (level : Level) (operand : Formula) : Formula :=
  match level.sum with
  | none => level.factor operand
  | some w => w.close (level.factor operand)

def push (level : Level) (operand : Formula) (op : Operator) : Level :=
  if op.isMultiplicative then ⟨level.sum, some ⟨level.factor operand, op⟩⟩
  else ⟨some ⟨level.total operand, op⟩, none⟩

end Level

/-- What has been read: `outer` holds the levels around the innermost open parenthesis. -/
inductive Reading where
  /-- An operand has to follow. -/
  | operand (level : Level) (outer : List Level)
  /-- An operator or the end has to follow the operand. -/
  | operator (operand : Formula) (level : Level) (outer : List Level)

namespace Reading

def start : Reading := .operand .start []

def step : Reading → Token → Except SyntaxError Reading
  | .operand level outer, .openParen => .ok (.operand .start (level :: outer))
  | .operand level outer, .atom text =>
    match number? text with
    | some value => .ok (.operator (.number value) level outer)
    | none => .error (.invalidToken text)
  | .operand _ _, token => .error (.invalidToken token.text)
  | .operator left level outer, .op op => .ok (.operand (level.push left op) outer)
  | .operator left level (next :: outer), .closeParen =>
    .ok (.operator (level.total left) next outer)
  | .operator _ _ (_ :: _), _ => .error .missingClosingParen
  | .operator _ _ [], token => .error (.unexpectedToken token.text)

def finish : Reading → Except SyntaxError Formula
  | .operand _ _ => .error .unexpectedEnd
  | .operator left level [] => .ok (level.total left)
  | .operator _ _ (_ :: _) => .error .missingClosingParen

end Reading

def ofTokens (tokens : List Token) : Except SyntaxError Formula :=
  if tokens.isEmpty then .error .empty
  else do (← tokens.foldlM Reading.step Reading.start).finish

def parse (text : String) : Except SyntaxError Formula := ofTokens (Token.scan text)

end Reckoner.Formula
