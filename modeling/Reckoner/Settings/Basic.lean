import Reckoner.Task.Plan
import Reckoner.Text.Blank

/-!
# Settings

How long operations take, where the coordinator listens, how workers reach it, and where the
journal goes.
-/

namespace Reckoner

structure ServerSettings where
  address : String
  /-- How many milliseconds a worker may keep a task; forever if there is none. -/
  lease : Option UInt64
deriving DecidableEq, Repr

/-- How workers run. Times are in milliseconds. -/
structure WorkerSettings where
  url : String
  count : UInt64
  pollInterval : UInt64
  requestTimeout : UInt64
deriving DecidableEq, Repr

structure Settings where
  times : OperationTimes
  server : ServerSettings
  worker : WorkerSettings
  logFile : Option String
deriving DecidableEq, Repr

def ServerSettings.default : ServerSettings := ⟨"0.0.0.0:8080", none⟩

def WorkerSettings.default : WorkerSettings := ⟨"http://localhost:8080", 3, 1000, 10000⟩

namespace Settings

def default : Settings := ⟨.default, .default, .default, none⟩

def fault? (s : Settings) : Option BadSetting :=
  if s.worker.count = 0 then some .noWorkers
  else if Text.isBlankText s.server.address then some .blankAddress
  else if Text.isBlankText s.worker.url then some .blankUrl
  else none

def check (s : Settings) : Except Fault Unit :=
  match s.fault? with
  | some cause => .error (.badSetting cause)
  | none => .ok ()

def joinPath (directory path : List Char) : List Char :=
  match path with
  | '/' :: _ => path
  | _ => if directory.getLast? = some '/' then directory ++ path else directory ++ '/' :: path

/-- A path in which a tilde and a slash in front stand for the home directory, if that is known. -/
def expandHome (home : Option String) (path : String) : String :=
  match path.toList, home with
  | '~' :: '/' :: rest, some home => String.ofList (joinPath home.toList rest)
  | _, _ => path

def logPath (s : Settings) (home : Option String) : Option String := s.logFile.map (expandHome home)

end Settings

end Reckoner
