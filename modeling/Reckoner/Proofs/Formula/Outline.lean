import Reckoner.Proofs.Formula.Descent

/-!
# Where reading fails

For the errors of a formula no tree is needed. Whether an operand or an operator has to follow, and
how many parentheses are open, decides which token is refused first, and as what.
-/

namespace Reckoner.Formula

/-- What has to follow, inside so many open parentheses. -/
inductive Outline where
  | operand (depth : Nat)
  | operator (depth : Nat)

namespace Outline

def step : Outline → Token → Except SyntaxError Outline
  | .operand depth, .openParen => .ok (.operand (depth + 1))
  | .operand depth, .atom text =>
    if (number? text).isSome then .ok (.operator depth) else .error (.invalidToken text)
  | .operand _, token => .error (.invalidToken token.text)
  | .operator depth, .op _ => .ok (.operand depth)
  | .operator (depth + 1), .closeParen => .ok (.operator depth)
  | .operator (_ + 1), _ => .error .missingClosingParen
  | .operator 0, token => .error (.unexpectedToken token.text)

def finish : Outline → Except SyntaxError Unit
  | .operand _ => .error .unexpectedEnd
  | .operator 0 => .ok ()
  | .operator (_ + 1) => .error .missingClosingParen

end Outline

def assess (tokens : List Token) : Except SyntaxError Unit :=
  if tokens = [] then .error .empty
  else do (← tokens.foldlM Outline.step (.operand 0)).finish

namespace Reading

def outline : Reading → Outline
  | .operand _ outer => .operand outer.length
  | .operator _ _ outer => .operator outer.length

theorem step_outline (r : Reading) (t : Token) : (r.step t).map outline = r.outline.step t := by
  cases r with
  | operand level outer =>
    cases t with
    | atom text => cases h : number? text <;> simp only [step, outline, Outline.step, h] <;> rfl
    | op | openParen | closeParen => rfl
  | operator x level outer => cases outer <;> cases t <;> rfl

theorem finish_outline (r : Reading) : r.finish.map (fun _ => ()) = r.outline.finish := by
  cases r with
  | operand level outer => rfl
  | operator x level outer => cases outer <;> rfl

theorem run_outline (ts : List Token) : ∀ r : Reading, (r.run ts).map (fun _ => ()) =
    (ts.foldlM Outline.step r.outline).bind Outline.finish := by
  induction ts with
  | nil => exact finish_outline
  | cons t ts ih =>
    intro r
    rw [run_cons, List.foldlM_cons, ← step_outline]
    cases r.step t with
    | error e => rfl
    | ok r' => exact ih r'

end Reading

/--
Reading a text fails with the error of a scan of its tokens that only counts open parentheses, and
succeeds when the scan does. The tree is that of the descent through sums, products and factors.
-/
theorem parse_outlined (text : String) :
    (parse text).map (fun _ => ()) = assess (Token.scan text) ∧
    parse text = descend (Token.scan text) := by
  refine ⟨?_, (descend_eq_ofTokens _).symm⟩
  unfold parse assess
  by_cases h : Token.scan text = []
  · rw [if_pos h, h]
    rfl
  · rw [if_neg h, ofTokens_eq_run h, Reading.run_outline]
    rfl

end Reckoner.Formula
