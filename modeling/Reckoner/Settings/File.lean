import Reckoner.Settings.Basic
import Reckoner.Toml.Document
import Reckoner.Toml.Printer

/-!
# The settings file

A TOML document with the tables `timings`, `orchestrator` and `agent` and the key `log_file`. What
is left out has its default; unknown keys are passed over. A table may also be written as the array
of its values in order, of which the last ones may be left out.
-/

namespace Reckoner.Settings

/-! ## Reading -/

def integer? : Toml → Option UInt64
  | .integer n => if 0 ≤ n then some n.toNat.toUInt64 else none
  | _ => none

def text? : Toml → Option String
  | .string s => some s
  | _ => none

def entries? (keys : List String) : Toml → Option Toml.Table
  | .table _ entries => some entries
  | .array items => some (keys.zip items)
  | _ => none

section
variable {α : Type} (entries : Toml.Table) (key : String) (read : Toml → Option α)

def optional? : Option (Option α) :=
  match entries.lookup key with
  | none => some none
  | some value => (read value).map some

def valueOr? (default : α) : Option α := (optional? entries key read).map (·.getD default)

end

def times? (t : Toml) : Option OperationTimes := do
  let entries ← entries? ["addition_ms", "subtraction_ms", "multiplication_ms", "division_ms"] t
  let d := OperationTimes.default
  return ⟨← valueOr? entries "addition_ms" integer? d.addition,
    ← valueOr? entries "subtraction_ms" integer? d.subtraction,
    ← valueOr? entries "multiplication_ms" integer? d.multiplication,
    ← valueOr? entries "division_ms" integer? d.division⟩

def server? (t : Toml) : Option ServerSettings := do
  let entries ← entries? ["addr", "task_lease_ms"] t
  return ⟨← valueOr? entries "addr" text? ServerSettings.default.address,
    ← optional? entries "task_lease_ms" integer?⟩

def worker? (t : Toml) : Option WorkerSettings := do
  let entries ← entries? ["orchestrator_url", "computing_power", "poll_interval_ms",
    "request_timeout_ms"] t
  let d := WorkerSettings.default
  return ⟨← valueOr? entries "orchestrator_url" text? d.url,
    ← valueOr? entries "computing_power" integer? d.count,
    ← valueOr? entries "poll_interval_ms" integer? d.pollInterval,
    ← valueOr? entries "request_timeout_ms" integer? d.requestTimeout⟩

def ofToml? (entries : Toml.Table) : Option Settings := do
  return ⟨← valueOr? entries "timings" times? .default,
    ← valueOr? entries "orchestrator" server? .default,
    ← valueOr? entries "agent" worker? .default,
    ← optional? entries "log_file" text?⟩

/-- Reads the text of a settings file; without a file all settings have their defaults. -/
def ofFile : Option String → Except Fault Settings
  | none => .ok .default
  | some text =>
    match (Toml.parse? text).bind ofToml? with
    | none => .error (.badFormat .tomlReading)
    | some settings => .ok settings

/-! ## Writing -/

/-- The text of a settings file, none if a number has more than 63 bits. -/
def render? (s : Settings) : Option String := do
  return String.join [
    (s.logFile.map (Toml.textLine "log_file")).getD "",
    Toml.headerLine "timings",
    ← Toml.numberLine? "addition_ms" s.times.addition,
    ← Toml.numberLine? "subtraction_ms" s.times.subtraction,
    ← Toml.numberLine? "multiplication_ms" s.times.multiplication,
    ← Toml.numberLine? "division_ms" s.times.division,
    Toml.headerLine "orchestrator",
    Toml.textLine "addr" s.server.address,
    ← match s.server.lease with
      | none => some ""
      | some lease => Toml.numberLine? "task_lease_ms" lease,
    Toml.headerLine "agent",
    Toml.textLine "orchestrator_url" s.worker.url,
    ← Toml.numberLine? "computing_power" s.worker.count,
    ← Toml.numberLine? "poll_interval_ms" s.worker.pollInterval,
    ← Toml.numberLine? "request_timeout_ms" s.worker.requestTimeout]

def toFile (s : Settings) : Except Fault String :=
  match s.render? with
  | none => .error (.badFormat .tomlWriting)
  | some text => .ok text

end Reckoner.Settings
