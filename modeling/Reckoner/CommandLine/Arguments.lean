/-!
# Arguments

Arguments are switches and words. A switch has a long name behind two hyphens and may have a letter
behind one; its value is attached or is the next argument. Letters may be joined. Behind an
argument of two hyphens there are only words.
-/

namespace Reckoner.CommandLine

inductive Effect where
  | flag
  | value (accepts : String → Bool)
  | help
  | version

structure Switch where
  name : String
  letter : Option Char
  effect : Effect

inductive Stop where
  | help
  | version
  | misuse (message : String)
deriving DecidableEq, Repr

structure Grammar where
  switches : List Switch
  words : Nat

/-- The arguments read so far: switches by name, and words, both latest first. -/
structure Given where
  switches : List (String × String)
  words : List String
deriving DecidableEq, Repr

namespace Given

def empty : Given := ⟨[], []⟩

def value? (g : Given) (name : String) : Option String := g.switches.lookup name

def has (g : Given) (name : String) : Bool := (g.value? name).isSome

def addSwitch (g : Given) (s : Switch) (value : String) : Except Stop Given :=
  if g.has s.name then .error (.misuse s!"the argument '--{s.name}' cannot be used multiple times")
  else .ok { g with switches := (s.name, value) :: g.switches }

def addValue (g : Given) (s : Switch) (accepts : String → Bool) (value : String) :
    Except Stop Given :=
  if accepts value then g.addSwitch s value
  else .error (.misuse s!"invalid value '{value}' for '--{s.name}'")

def addWord (g : Given) (grammar : Grammar) (word : String) : Except Stop Given :=
  if g.words.length < grammar.words then .ok { g with words := word :: g.words }
  else .error (.misuse s!"unexpected argument '{word}' found")

end Given

def isWord (argument : String) : Bool :=
  match argument.toList with
  | ['-'] => true
  | '-' :: _ => false
  | _ => true

def missingValue (s : Switch) : Stop :=
  .misuse s!"a value is required for '--{s.name}' but none was supplied"

def splitValue (cs : List Char) : String × Option String :=
  let (name, rest) := cs.span (· ≠ '=')
  (String.ofList name, match rest with
    | _ :: value => some (String.ofList value)
    | [] => none)

/-- Reads a long switch behind its hyphens; also the switch if its value is the next argument. -/
def long (grammar : Grammar) (g : Given) (cs : List Char) : Except Stop (Given × Option Switch) :=
  let (name, attached) := splitValue cs
  match grammar.switches.find? (·.name == name) with
  | none => .error (.misuse s!"unexpected argument '--{name}' found")
  | some s =>
    match s.effect, attached with
    | .value accepts, some value => do return (← g.addValue s accepts value, none)
    | .value _, none => .ok (g, some s)
    | _, some value => .error (.misuse s!"unexpected value '{value}' for '--{name}' found")
    | .flag, none => do return (← g.addSwitch s "", none)
    | .help, none => .error .help
    | .version, none => .error .version

/-- Reads joined letters; also the switch of the last one if its value is the next argument. -/
def letters (grammar : Grammar) (g : Given) : List Char → Except Stop (Given × Option Switch)
  | [] => .ok (g, none)
  | c :: cs =>
    match grammar.switches.find? (·.letter == some c) with
    | none => .error (.misuse s!"unexpected argument '-{c}' found")
    | some s =>
      match s.effect, cs with
      | .value _, [] => .ok (g, some s)
      | .value accepts, '=' :: cs => do return (← g.addValue s accepts (String.ofList cs), none)
      | .value accepts, cs => do return (← g.addValue s accepts (String.ofList cs), none)
      | .flag, cs => do letters grammar (← g.addSwitch s "") cs
      | .help, _ => .error .help
      | .version, _ => .error .version

def switch (grammar : Grammar) (g : Given) (argument : String) :
    Except Stop (Given × Option Switch) :=
  match argument.toList with
  | '-' :: '-' :: cs => long grammar g cs
  | '-' :: cs => letters grammar g cs
  | _ => .ok (g, none)

/--
Reads the arguments of a command that has no commands of its own. `pending` waits for its value.
-/
def read (grammar : Grammar) : (pending : Option Switch) → Given → List String → Except Stop Given
  | none, g, [] => .ok g
  | some s, _, [] => .error (missingValue s)
  | some s, g, argument :: rest =>
    match s.effect, isWord argument with
    | .value accepts, true => do read grammar none (← g.addValue s accepts argument) rest
    | _, _ => .error (missingValue s)
  | none, g, argument :: rest =>
    if argument = "--" then rest.foldlM (fun g word => g.addWord grammar word) g
    else if isWord argument then do read grammar none (← g.addWord grammar argument) rest
    else do
      let (g, pending) ← switch grammar g argument
      read grammar pending g rest

/--
Reads arguments up to the name of a command, and returns the name and the arguments behind it.
-/
def readCommand (grammar : Grammar) : (pending : Option Switch) → Given → List String →
    Except Stop (Given × String × List String)
  | none, _, [] => .error (.misuse "a subcommand is required")
  | some s, _, [] => .error (missingValue s)
  | some s, g, argument :: rest =>
    match s.effect, isWord argument with
    | .value accepts, true => do readCommand grammar none (← g.addValue s accepts argument) rest
    | _, _ => .error (missingValue s)
  | none, g, argument :: rest =>
    if argument = "--" then .error (.misuse "a subcommand is required")
    else if isWord argument then .ok (g, argument, rest)
    else do
      let (g, pending) ← switch grammar g argument
      readCommand grammar pending g rest

end Reckoner.CommandLine
