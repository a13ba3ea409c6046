import Reckoner.Json.Token

/-!
# Reading JSON

The tokens are read once from left to right. Arrays and objects may be nested to any depth.
-/

namespace Reckoner.Json

/-- An array or object that is still open, its contents latest first. -/
inductive Frame where
  | array (items : List Json)
  /-- The value of the member `name` comes next. -/
  | object (members : List (Option String × Json)) (name : Option String)

/-- What has been read: `outer` holds the open arrays and objects, innermost first. -/
inductive Reading where
  /-- A value has to follow. -/
  | value (outer : List Frame)
  /-- A value or the end of the array has to follow. -/
  | item (outer : List Frame)
  /-- A name or the end of the object has to follow. -/
  | member (outer : List Frame)
  /-- A name has to follow. -/
  | label (members : List (Option String × Json)) (outer : List Frame)
  /-- A colon has to follow the name. -/
  | colon (members : List (Option String × Json)) (name : Option String) (outer : List Frame)
  /-- A comma or an end has to follow the value. -/
  | done (value : Json) (outer : List Frame)

namespace Reading

def start : Reading := .value []

def enter (outer : List Frame) : Token → Option Reading
  | .openArray => some (.item outer)
  | .openObject => some (.member outer)
  | .null => some (.done .null outer)
  | .bool b => some (.done (.bool b) outer)
  | .number n => some (.done (.number n) outer)
  | .string s => some (.done (.string s) outer)
  | _ => none

def step : Reading → Token → Option Reading
  | .value outer, token => enter outer token
  | .item outer, .closeArray => some (.done (.array []) outer)
  | .item outer, token => enter (.array [] :: outer) token
  | .member outer, .closeObject => some (.done (.object []) outer)
  | .member outer, .string name => some (.colon [] name outer)
  | .label members outer, .string name => some (.colon members name outer)
  | .colon members name outer, .colon => some (.value (.object members name :: outer))
  | .done v (.array items :: outer), .comma => some (.value (.array (v :: items) :: outer))
  | .done v (.array items :: outer), .closeArray => some (.done (.array (v :: items).reverse) outer)
  | .done v (.object members name :: outer), .comma => some (.label ((name, v) :: members) outer)
  | .done v (.object members name :: outer), .closeObject =>
    some (.done (.object ((name, v) :: members).reverse) outer)
  | _, _ => none

def finish : Reading → Option Json
  | .done v [] => some v
  | _ => none

end Reading

def ofTokens? (tokens : List Token) : Option Json :=
  do (← tokens.foldlM Reading.step Reading.start).finish

def parse? (text : String) : Option Json := do ofTokens? (← scan text.toList)

end Reckoner.Json
