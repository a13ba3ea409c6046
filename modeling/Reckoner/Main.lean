import Reckoner.CommandLine.Run

/-!
# The program

Reads the arguments, the environment and the settings file, and prints what the run comes to.
-/

namespace Reckoner.Main

def variableNames : List String :=
  ["TIME_ADDITION_MS", "TIME_SUBTRACTION_MS", "TIME_MULTIPLICATIONS_MS", "TIME_DIVISIONS_MS",
    "AGENT_POLL_INTERVAL_MS", "TASK_LEASE_MS", "DISTCALC_ADDR", "ORCHESTRATOR_URL",
    "COMPUTING_POWER"]

def environment : IO (String → Option String) := do
  let values ← variableNames.mapM fun name => return (name, ← IO.getEnv name)
  return fun name => (values.lookup name).join

def textOf (path : String) : IO (Option String) := do
  try return some (← IO.FS.readFile path) catch _ => return none

def finish (e : CommandLine.Exit) : IO UInt32 := do
  IO.sleep e.elapsed.toUInt32
  (← IO.getStdout).putStr e.output
  (← IO.getStderr).putStr e.errors
  return e.code

/--
Carries out an invocation. Serving and fetching tasks need a network, which this program does not
have.
-/
def run (i : CommandLine.Invocation) : IO UInt32 := do
  match i.settingsPath (← IO.getEnv "HOME") with
  | .error cause => finish (.ofFault cause)
  | .ok path =>
    match i.run (← textOf path) (← environment) with
    | .exit e => finish e
    | .serve address _ => finish ⟨1, "", s!"error: no network to serve {address}\n", 0⟩
    | .work settings => finish ⟨1, "", s!"error: no network to reach {settings.worker.url}\n", 0⟩

end Reckoner.Main

def main (arguments : List String) : IO UInt32 :=
  match Reckoner.CommandLine.parse arguments with
  | .error halt => Reckoner.Main.finish (.ofHalt halt)
  | .ok i => Reckoner.Main.run i
