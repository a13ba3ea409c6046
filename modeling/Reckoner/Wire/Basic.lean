import Reckoner.Id
import Reckoner.Instant.Text
import Reckoner.Json.Bytes
import Reckoner.Json.Printer
import Reckoner.Json.Record

/-!
# Values on the wire

Types whose values are exchanged as JSON, and the plain ones among them.
-/

namespace Reckoner

/-- How the values of a type are written as JSON and read from it. -/
class Wire (α : Type) where
  encode : α → Json
  decode? : Json → Option α

namespace Wire

variable {α : Type}

def write [Wire α] (a : α) : String := (encode a).render

def read? [Wire α] (text : String) : Option α := (Json.parse? text).bind decode?

def readBytes? [Wire α] (bytes : ByteArray) : Option α := (Json.parseBytes? bytes).bind decode?

def text? : Json → Option String
  | .string s => s
  | _ => none

instance : Wire String := ⟨.text, text?⟩

instance : Wire Float := ⟨.ofFloat, Json.toFloat?⟩

instance : Wire UInt64 := ⟨.ofUInt64, Json.toUInt64?⟩

instance : Wire Instant := ⟨fun i => .text i.text, fun j => (text? j).bind Instant.parse?⟩

instance {kind : IdKind} : Wire (Id kind) :=
  ⟨fun id => .text id.text, fun j => (text? j).bind Id.parse?⟩

/-- A value that is not there is `null`. -/
instance [Wire α] : Wire (Option α) where
  encode
    | none => .null
    | some a => encode a
  decode? := Json.nullable? decode?

instance [Wire α] : Wire (List α) where
  encode xs := .array (xs.map encode)
  decode?
    | .array items => items.mapM decode?
    | _ => none

/-- One of several names: a text, or an object whose only member has the name and is `null`. -/
def oneOf? (all : List α) (name : α → String) : Json → Option α
  | .string (some s) => all.find? fun a => name a == s
  | .object [(some s, .null)] => all.find? fun a => name a == s
  | _ => none

def omittable [Wire α] (name : String) (a : Option α) : List (String × Json) :=
  match a with
  | none => []
  | some a => [(name, encode a)]

end Wire

end Reckoner
