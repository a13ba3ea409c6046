import Reckoner.CommandLine.Arguments
import Reckoner.Settings.Address
import Reckoner.Settings.Environment

/-!
# Invocations

The commands of the program and their switches.
-/

namespace Reckoner.CommandLine

inductive Command where
  | serve (address : Option String)
  | agent (url : Option String) (workers : Option UInt64)
  | eval (formula : String) (direct timed : Bool)
deriving DecidableEq, Repr

structure Invocation where
  debug : Bool
  /-- The settings file, if it is not the usual one. -/
  settingsFile : Option String
  command : Command
deriving DecidableEq, Repr

inductive Page where
  | program
  | serve
  | agent
  | eval
  | help
deriving DecidableEq, Repr

inductive Halt where
  | help (page : Page)
  | version
  | misuse (message : String)
deriving DecidableEq, Repr

def Halt.ofStop (page : Page) : Stop → Halt
  | .help => .help page
  | .version => .version
  | .misuse message => .misuse message

/-! ## Switches -/

def commonSwitches : List Switch :=
  [⟨"debug", some 'd', .flag⟩, ⟨"config", some 'c', .value (!·.isEmpty)⟩, ⟨"help", some 'h', .help⟩]

def programGrammar : Grammar := ⟨commonSwitches ++ [⟨"version", some 'V', .version⟩], 0⟩

def serveGrammar : Grammar := ⟨⟨"addr", none, .value Address.isValid⟩ :: commonSwitches, 0⟩

def number? (value : String) : Option UInt64 :=
  if value.toList.any Text.isBlank then none else Settings.number? value

def agentGrammar : Grammar :=
  ⟨[⟨"url", none, .value fun _ => true⟩,
    ⟨"workers", some 'w', .value fun v => (number? v).isSome⟩] ++
    commonSwitches, 0⟩

def evalGrammar : Grammar :=
  ⟨[⟨"direct", none, .flag⟩, ⟨"timed", none, .flag⟩] ++ commonSwitches, 1⟩

/-! ## Reading -/

def helpPage : List String → Halt
  | [] => .help .program
  | ["serve"] => .help .serve
  | ["agent"] => .help .agent
  | ["eval"] => .help .eval
  | ["help"] => .help .help
  | _ => .misuse "unrecognized subcommand"

/-- The invocation of a command; its own switches go before those in front of its name. -/
def invocation (front own : Given) (command : Command) : Invocation where
  debug := front.has "debug" || own.has "debug"
  settingsFile := (own.value? "config").or (front.value? "config")
  command := command

def readOwn (page : Page) (grammar : Grammar) (arguments : List String) : Except Halt Given :=
  (read grammar none .empty arguments).mapError (.ofStop page)

def parse (arguments : List String) : Except Halt Invocation := do
  let (front, name, rest) ←
    (readCommand programGrammar none .empty arguments).mapError (.ofStop .program)
  match name with
  | "serve" =>
    let own ← readOwn .serve serveGrammar rest
    return invocation front own (.serve (own.value? "addr"))
  | "agent" =>
    let own ← readOwn .agent agentGrammar rest
    return invocation front own (.agent (own.value? "url") ((own.value? "workers").bind number?))
  | "eval" =>
    let own ← readOwn .eval evalGrammar rest
    match own.words with
    | [formula] => return invocation front own (.eval formula (own.has "direct") (own.has "timed"))
    | _ => throw (.misuse "the following required arguments were not provided: <EXPRESSION>")
  | "help" => throw (helpPage rest)
  | name => throw (.misuse s!"unrecognized subcommand '{name}'")

end Reckoner.CommandLine
