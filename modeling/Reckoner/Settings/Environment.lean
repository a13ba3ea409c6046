import Reckoner.Decimal.Numeral
import Reckoner.Settings.File

/-!
# Settings from the environment

Environment variables take precedence over the settings file. A number that cannot be read changes
nothing, but a worker count that cannot be used becomes the default.
-/

namespace Reckoner.Settings

def number? (value : String) : Option UInt64 :=
  let digits :=
    match (Text.trim value).toList with
    | '+' :: cs => cs
    | cs => cs
  if digits ≠ [] ∧ digits.all Char.isDigit ∧ Numeral.valueOf digits < UInt64.size then
    some (Numeral.valueOf digits).toUInt64
  else none

def workerCount (value : String) : UInt64 :=
  match number? value with
  | none => WorkerSettings.default.count
  | some n => if n = 0 then WorkerSettings.default.count else n

def override (s : Settings) (env : String → Option String) : Settings :=
  let number := fun (name : String) (old : UInt64) => ((env name).bind number?).getD old
  { s with
    times :=
      { addition := number "TIME_ADDITION_MS" s.times.addition
        subtraction := number "TIME_SUBTRACTION_MS" s.times.subtraction
        multiplication := number "TIME_MULTIPLICATIONS_MS" s.times.multiplication
        division := number "TIME_DIVISIONS_MS" s.times.division }
    server :=
      { address := (env "DISTCALC_ADDR").getD s.server.address
        lease := ((env "TASK_LEASE_MS").bind number?).or s.server.lease }
    worker :=
      { s.worker with
        url := (env "ORCHESTRATOR_URL").getD s.worker.url
        count := ((env "COMPUTING_POWER").map workerCount).getD s.worker.count
        pollInterval := number "AGENT_POLL_INTERVAL_MS" s.worker.pollInterval } }

def load (file : Option String) (env : String → Option String) : Except Fault Settings := do
  let s := (← ofFile file).override env
  s.check
  return s

end Reckoner.Settings
