import Reckoner.Http.Target

/-!
# Routes

What the paths of the interface name. Clients submit formulas and look at expressions; workers ask
for tasks and send results.
-/

namespace Reckoner.Http

inductive Route where
  | calculate
  | expressions
  /-- One expression, by the percent-encoded text of its identifier. -/
  | expression (segment : List Char)
  | task
deriving DecidableEq, Repr

namespace Route

def ofSegments? : List String → Option Route
  | ["api", "v1", "calculate"] => some calculate
  | ["api", "v1", "expressions"] => some expressions
  | ["api", "v1", "expressions", segment] =>
    if segment.isEmpty then none else some (expression segment.toList)
  | ["internal", "task"] => some task
  | _ => none

def ofTarget? (target : String) : Option Route :=
  (segments? (path target)).bind fun segments => ofSegments? (segments.map String.ofList)

end Route

inductive Method where
  | get
  | head
  | post
  | other
deriving DecidableEq, Repr

/-- Methods are told apart by case. -/
def Method.ofName : String → Method
  | "GET" => get
  | "HEAD" => head
  | "POST" => post
  | _ => other

end Reckoner.Http
