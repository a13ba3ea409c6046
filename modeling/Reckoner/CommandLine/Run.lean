import Reckoner.CommandLine.Help
import Reckoner.Evaluation
import Reckoner.Journal

/-!
# Carrying out invocations

What an invocation prints and how it exits, given the settings file and the environment.
-/

namespace Reckoner.CommandLine

structure Exit where
  code : UInt32
  output : String
  errors : String
  /-- How many milliseconds the run has to take. -/
  elapsed : Nat
deriving DecidableEq, Repr

namespace Exit

def success (output : String) : Exit := ⟨0, output, "", 0⟩

def ofFault (cause : Fault) : Exit := ⟨1, "", s!"Error: {cause.diagnosis}\n", 0⟩

def ofHalt : Halt → Exit
  | .help page => success page.text
  | .version => success (version ++ "\n")
  | .misuse message => ⟨2, "", s!"error: {message}\n\nFor more information, try '--help'.\n", 0⟩

end Exit

inductive Action where
  | exit (e : Exit)
  | serve (address : String) (settings : Settings)
  | work (settings : Settings)

def numberLine (x : Float) : String := Layout.plain.text x ++ "\n"

def evalDirect (formula : String) : Exit :=
  match Evaluation.direct formula with
  | .error cause => .ofFault cause
  | .ok x => .success (numberLine x)

def Exit.ofEnding (elapsed : Nat) : Evaluation.Ending → Exit
  | .value x => { Exit.success (numberLine x) with elapsed }
  | .failure message => ⟨1, "", s!"error: {message}\n", elapsed⟩
  | .fault cause => .ofFault cause

def evalByWorkers (settings : Settings) (formula : String) (timed : Bool) : Exit :=
  let times := if timed then settings.times else .instant
  let (ending, elapsed) := Evaluation.distributed times settings.worker.count.toNat formula
  .ofEnding elapsed ending

def workerSettings (settings : Settings) (url : Option String) (workers : Option UInt64) :
    Settings :=
  { settings with
    worker :=
      { settings.worker with
        url := url.getD settings.worker.url
        count := workers.getD settings.worker.count } }

def Command.run (settings : Settings) : Command → Action
  | .serve (some address) => .serve address settings
  | .serve none =>
    let address := settings.server.address
    if Address.isValid address then .serve address settings
    else .exit (.ofFault (.badSetting (.badAddress address)))
  | .agent url workers =>
    let settings := workerSettings settings url workers
    match settings.check with
    | .error cause => .exit (.ofFault cause)
    | .ok () => .work settings
  | .eval formula true _ => .exit (evalDirect formula)
  | .eval formula false timed => .exit (evalByWorkers settings formula timed)

def Invocation.run (i : Invocation) (file : Option String) (env : String → Option String) :
    Action :=
  match Settings.load file env with
  | .error cause => .exit (.ofFault cause)
  | .ok settings => i.command.run settings

def Invocation.settingsPath (i : Invocation) (home : Option String) : Except Fault String :=
  match i.settingsFile, home with
  | some path, _ => .ok path
  | none, some home =>
    .ok (String.ofList (Settings.joinPath home.toList ".distcalc/distcalc.toml".toList))
  | none, none => .error .noHomeDirectory

end Reckoner.CommandLine
