import Reckoner.Text.Quoted

/-!
# Why a formula cannot be read
-/

namespace Reckoner

inductive SyntaxError where
  | empty
  | unexpectedEnd
  /-- An open parenthesis is followed by something other than an operator or its partner. -/
  | missingClosingParen
  /-- A token that is no operand stands where an operand has to. -/
  | invalidToken (text : String)
  /-- A token follows a complete formula. -/
  | unexpectedToken (text : String)
deriving DecidableEq, Repr

def SyntaxError.message : SyntaxError → String
  | .empty => "empty expression"
  | .unexpectedEnd => "unexpected end of expression"
  | .missingClosingParen => "missing closing parenthesis"
  | .invalidToken text => s!"invalid token: {text}"
  | .unexpectedToken text => s!"unexpected token: {text}"

def SyntaxError.diagnosis : SyntaxError → String
  | .empty => "Empty"
  | .unexpectedEnd => "UnexpectedEnd"
  | .missingClosingParen => "MissingClosingParen"
  | .invalidToken text => s!"InvalidToken({Text.quote text})"
  | .unexpectedToken text => s!"UnexpectedToken({Text.quote text})"

end Reckoner
