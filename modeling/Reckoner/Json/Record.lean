import Reckoner.Json.Number

/-!
# Records in JSON

A record is written as an object, or as the array of its members in order. In an object unknown
members are passed over and no known one may be repeated; an array may end early.
-/

namespace Reckoner.Json

structure Record where
  /-- Whether it was written as an object. -/
  isNamed : Bool
  members : List (String × Json)

def repeats (names : List String) (members : List (String × Json)) : Bool :=
  names.any fun name => 1 < members.countP fun m => m.1 == name

def record? (names : List String) : Json → Option Record
  | .object members => do
    let members ← members.mapM fun (name, value) => name.map (·, value)
    if repeats names members then none else return ⟨true, members⟩
  | .array items => if items.length ≤ names.length then some ⟨false, names.zip items⟩ else none
  | _ => none

namespace Record

def get? (r : Record) (name : String) : Option Json := r.members.lookup name

variable {α : Type} (r : Record) (name : String) (read : Json → Option α)

def required? : Option α := (r.get? name).bind read

def defaulted? (default : α) : Option α :=
  match r.get? name with
  | none => some default
  | some value => read value

end Record

def nullable? {α : Type} (read : Json → Option α) : Json → Option (Option α)
  | .null => some none
  | j => (read j).map some

/-- A member that may be `null`, and may be left out of an object. -/
def Record.optional? {α : Type} (r : Record) (name : String) (read : Json → Option α) :
    Option (Option α) :=
  match r.get? name with
  | none => if r.isNamed then some none else none
  | some value => nullable? read value

end Reckoner.Json
