/-!
# Media types

The type of a request body: a type and a subtype, which may have a suffix behind its last plus,
and parameters behind semicolons. Letters may have any case.
-/

namespace Reckoner

structure MediaType where
  type : String
  subtype : String
  suffix : Option String
deriving DecidableEq, Repr

namespace MediaType

def isTokenChar (c : Char) : Bool := c.isAlphanum || "!#$%&'*+-.^_\x60|~".toList.contains c

def isQuotable (c : Char) : Bool := 31 < c.toNat && c.toNat < 127

/-! ## Parameters -/

inductive Place where
  /-- Before a name; blanks may stand here, and the list may end. -/
  | gap
  | name
  /-- Behind the equals sign. -/
  | start
  | value
  /-- Behind the opening quote; the next character belongs to the value whatever it is. -/
  | opened
  | quoted
  /-- Behind the closing quote; blanks may stand here. -/
  | closed
deriving DecidableEq, Repr

def Place.step? : Place → Char → Option Place
  | gap, c => if c = ' ' then some gap else if isTokenChar c then some name else none
  | name, c => if c = '=' then some start else if isTokenChar c then some name else none
  | start, c => if c = '"' then some opened else if isTokenChar c then some value else none
  | value, c => if c = ';' then some gap else if isTokenChar c then some value else none
  | opened, c => if isQuotable c then some quoted else none
  | quoted, c => if c = '"' then some closed else if isQuotable c then some quoted else none
  | closed, c => if c = ';' then some gap else if c = ' ' then some closed else none

def Place.isEnd : Place → Bool
  | gap => true
  | name => false
  | start => true
  | value => true
  | opened => false
  | quoted => false
  | closed => true

def areParameters (cs : List Char) : Bool := (cs.foldlM Place.step? .gap).any Place.isEnd

/-! ## Types -/

/-- Splits a subtype at its last plus; a plus in front splits nothing. -/
def splitSuffix (cs : List Char) : List Char × Option (List Char) :=
  let suffix := (cs.reverse.takeWhile (· ≠ '+')).reverse
  let before := cs.take (cs.length - suffix.length - 1)
  if before.isEmpty then (cs, none) else (before, some suffix)

def lower (cs : List Char) : String := String.ofList (cs.map Char.toLower)

def parse? (text : String) : Option MediaType :=
  let (type, rest) := text.toList.span fun c => isTokenChar c
  match rest with
  | '/' :: rest =>
    let (subtype, rest) := rest.span fun c => isTokenChar c
    let (main, suffix) := splitSuffix subtype
    let mediaType : MediaType := ⟨lower type, lower main, suffix.map lower⟩
    match type, subtype, rest with
    | [], _, _ => none
    | _, _, [] => some mediaType
    | _, [], _ => none
    | _, _, ';' :: parameters => if areParameters parameters then some mediaType else none
    | _, _, _ => none
  | _ => none

def isJson (m : MediaType) : Bool :=
  m.type == "application" && (m.subtype == "json" || m.suffix == some "json")

end MediaType

end Reckoner
