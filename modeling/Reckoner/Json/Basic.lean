import Reckoner.Decimal.Numeral

/-!
# JSON values

A value as it is written: numbers keep their digits, and objects keep the order of their members
and may repeat a name.
-/

namespace Reckoner

inductive Json where
  | null
  | bool (value : Bool)
  | number (value : Numeral)
  /-- A text; none if it has an unpaired surrogate and so is no sequence of characters. -/
  | string (value : Option String)
  | array (items : List Json)
  | object (members : List (Option String × Json))
deriving Repr

namespace Json

def text (s : String) : Json := .string (some s)

def record (members : List (String × Json)) : Json :=
  .object (members.map fun (name, value) => (some name, value))

end Json

end Reckoner
