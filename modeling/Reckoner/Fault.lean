import Reckoner.Formula.SyntaxError
import Reckoner.Id
import Reckoner.Text.Quoted

/-!
# Faults

The causes for which a call is refused, and the message of each.
-/

namespace Reckoner

inductive Defect where
  /-- One list of tasks holds the task twice. -/
  | repeatedTask (task : TaskId)
  | unknownDependency (task dependency : TaskId)
  | cycle
  /-- The table holds the task already, or would receive it twice. -/
  | storedTask (task : TaskId)
  /-- A new version of a task has another owner or other dependencies. -/
  | rewiredTask (task : TaskId)
  | noSingleRoot
  | notATree
  /-- A report has neither a result nor an error. -/
  | emptyReport
  /-- A defect put into words by the caller. -/
  | stated (text : String)
deriving DecidableEq, Repr

def Defect.message : Defect → String
  | .repeatedTask task => s!"Task {task.text} appears more than once"
  | .unknownDependency task dependency =>
    s!"Task {task.text} depends on unknown task {dependency.text}"
  | .cycle => "Task dependencies contain a cycle"
  | .storedTask task => s!"Task {task.text} already exists"
  | .rewiredTask task => s!"Task {task.text} cannot change its expression or dependencies"
  | .noSingleRoot => "tasks have no single root"
  | .notATree => "decomposition is not a single-rooted tree"
  | .emptyReport => "report carries no result"
  | .stated text => text

inductive BadSetting where
  | noWorkers
  | blankAddress
  | blankUrl
  | badAddress (address : String)
  | stated (text : String)
deriving DecidableEq, Repr

def BadSetting.message : BadSetting → String
  | .noWorkers => "agent.computing_power must be at least 1"
  | .blankAddress => "orchestrator.addr is empty"
  | .blankUrl => "agent.orchestrator_url is empty"
  | .badAddress address =>
    s!"invalid orchestrator.addr {Text.quote address}: invalid socket address syntax"
  | .stated text => text

inductive Format where
  | json
  | tomlReading
  | tomlWriting
deriving DecidableEq, Repr

inductive Fault where
  | expressionNotFound (id : ExpressionId)
  | taskNotFound (id : TaskId)
  | rejected (id : ExpressionId) (cause : SyntaxError)
  | divisionByZero
  | noHomeDirectory
  | badSetting (cause : BadSetting)
  | invalid (cause : Defect)
  | unexpectedStatus (code : Nat)
  | badFormat (format : Format)
deriving DecidableEq, Repr

namespace Fault

def message : Fault → String
  | .expressionNotFound id => s!"Expression not found: {id.text}"
  | .taskNotFound id => s!"Task not found: {id.text}"
  | .rejected id cause => s!"Expression {id.text} rejected: {cause.message}"
  | .divisionByZero => "division by zero"
  | .noHomeDirectory => "No home directory"
  | .badSetting cause => s!"Invalid configuration: {cause.message}"
  | .invalid cause => s!"Validation error: {cause.message}"
  | .unexpectedStatus code => s!"Unexpected status code: {code}"
  | .badFormat .json => "JSON error"
  | .badFormat .tomlReading => "TOML parse error"
  | .badFormat .tomlWriting => "TOML serialize error"

/-- The name of the fault with what it holds, texts in quotes. -/
def diagnosis : Fault → String
  | .expressionNotFound id => s!"ExpressionNotFound(ExpressionId({id.text}))"
  | .taskNotFound id => s!"TaskNotFound(TaskId({id.text}))"
  | .rejected id cause =>
    s!"ExpressionRejected \x7b id: ExpressionId({id.text}), source: {cause.diagnosis} \x7d"
  | .divisionByZero => "DivisionByZero"
  | .noHomeDirectory => "NoHomeDir"
  | .badSetting cause => s!"Config({Text.quote cause.message})"
  | .invalid cause => s!"Validation({Text.quote cause.message})"
  | .unexpectedStatus code => s!"UnexpectedStatus({code})"
  | .badFormat .json => "Json"
  | .badFormat .tomlReading => "TomlParse"
  | .badFormat .tomlWriting => "TomlSerialize"

def isNotFound : Fault → Bool
  | .expressionNotFound _ => true
  | .taskNotFound _ => true
  | _ => false

end Fault

end Reckoner
