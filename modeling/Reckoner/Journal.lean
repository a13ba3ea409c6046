/-!
# Journal

A journal keeps the messages that are at least as serious as its level, and marks each line with
the severity of its message.
-/

namespace Reckoner

inductive Severity where
  | error
  | warn
  | info
  | debug
  | trace
deriving DecidableEq, Repr

namespace Severity

def name : Severity → String
  | error => "ERROR"
  | warn => "WARN"
  | info => "INFO"
  | debug => "DEBUG"
  | trace => "TRACE"

def all : List Severity := [error, warn, info, debug, trace]

def rank : Severity → Nat
  | error => 0
  | warn => 1
  | info => 2
  | debug => 3
  | trace => 4

end Severity

structure Journal where
  debug : Bool
  level : Severity
deriving DecidableEq, Repr

namespace Journal

def turnsOn (value : String) : Bool := value == "1" || value.toLower == "true"

/--
A journal at level `debug` when debugging is asked for by the caller or the environment, else at
`info`.
-/
def start (debug : Bool) (environment : Option String) : Journal :=
  let debug := debug || environment.any turnsOn
  ⟨debug, if debug then .debug else .info⟩

def setLevel (j : Journal) (level : Severity) : Journal := { j with level := level }

def admits (j : Journal) (severity : Severity) : Bool := severity.rank ≤ j.level.rank

def line? (j : Journal) (severity : Severity) (text : String) : Option String :=
  if j.admits severity then some s!"[{severity.name}] {text}" else none

end Journal

end Reckoner
