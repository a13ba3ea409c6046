import Reckoner.Proofs.Formula.Scan

/-!
# Blank texts

A text is refused as empty exactly when it is all white space: white space is in no token, every
other character is in one, and reading tokens, however it fails, never fails as empty.
-/

namespace Reckoner.Formula

theorem step_ne_empty (r : Reading) (token : Token) : r.step token ≠ .error .empty := by
  intro h
  unfold Reading.step at h
  split at h
  case h_2 => split at h <;> cases h
  all_goals cases h

theorem finish_ne_empty (r : Reading) : r.finish ≠ .error .empty := by
  intro h
  unfold Reading.finish at h
  split at h <;> cases h

theorem foldlM_step_ne_empty : ∀ (tokens : List Token)
    (r : Reading), tokens.foldlM Reading.step r ≠ .error .empty
  | [], r => by
    intro h
    cases h
  | token :: rest, r => by
    rw [List.foldlM_cons]
    cases hs : r.step token with
    | error cause =>
      intro h
      cases h
      exact step_ne_empty r token hs
    | ok r' => exact foldlM_step_ne_empty rest r'

theorem ofTokens_eq_empty {tokens : List Token} : ofTokens tokens = .error .empty ↔
    tokens = [] := by
  cases tokens with
  | nil => simp [ofTokens]
  | cons token rest =>
    simp only [ofTokens, List.isEmpty_cons, Bool.false_eq_true, if_false, reduceCtorEq, iff_false]
    cases hr : (token :: rest).foldlM Reading.step Reading.start with
    | error cause =>
      intro h
      cases h
      exact foldlM_step_ne_empty _ _ hr
    | ok r => exact finish_ne_empty r

theorem parse_eq_empty {text : String} : parse text = .error .empty ↔
    Text.isBlankText text = true := by
  rw [parse, ofTokens_eq_empty, Token.scan, Token.scanFrom_eq_nil]
  exact ⟨And.right, fun h => ⟨rfl, h⟩⟩

end Reckoner.Formula
