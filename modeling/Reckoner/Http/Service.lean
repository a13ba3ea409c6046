import Reckoner.Http.MediaType
import Reckoner.Http.Route
import Reckoner.Wire.Message
import Reckoner.Worker.Local

/-!
# The interface over HTTP

Requests to the coordinator and the answers to them. An answer is a JSON text, except where there
is nothing at the target.
-/

namespace Reckoner.Http

/--
A target is a text, the body need not be one. A name of a media type that is no text is taken for
none.
-/
structure Request where
  method : Method
  target : String
  contentType : Option String
  body : ByteArray

instance coeText : Coe String ByteArray := ⟨String.toByteArray⟩

structure Response where
  status : Nat
  body : String
deriving DecidableEq, Repr

/-- The identifiers and times that the answer to a request may take. -/
structure Supply where
  stamp : Stamp
  stamps : Nat → Stamp
  asked : Instant
  now : Instant

/-! ## Answers -/

namespace Response

def empty (status : Nat) : Response := ⟨status, ""⟩

def json {α : Type} [Wire α] (status : Nat) (a : α) : Response := ⟨status, Wire.write a⟩

def refusal (status : Nat) (reason : String) : Response := json status (Refusal.mk reason)

def ofFault : Fault → Response
  | .expressionNotFound _ => refusal 404 "Expression not found"
  | .taskNotFound _ => refusal 404 "Task not found"
  | .rejected _ cause => refusal 500 s!"Failed to process expression: {cause.message}"
  | fault => refusal 500 fault.message

def withoutBody (r : Response) : Response := { r with body := "" }

end Response

/-! ## Bodies -/

def maxBodySize : Nat := 2 * 1024 * 1024

/-- The value that a request holds: its body has to say that it is JSON, and to be it. -/
def Request.content? {α : Type} [Wire α] (r : Request) : Option α :=
  if (r.contentType.bind MediaType.parse?).any MediaType.isJson && r.body.size ≤ maxBodySize then
    Wire.readBytes? r.body
  else none

def withContent {α : Type} [Wire α] (c : Coordinator) (r : Request)
    (answer : α → Response × Coordinator) : Response × Coordinator :=
  match (r.content? : Option α) with
  | none => (.refusal 422 "Invalid request payload", c)
  | some a => answer a

/-! ## Routes -/

def submit (c : Coordinator) (s : Supply) (m : Submission) : Response × Coordinator :=
  if Text.isBlankText m.text then (.refusal 422 "Expression is required", c)
  else
    match c.submit m.text s.stamp s.stamps s.now with
    | (.error fault, c) => (.ofFault fault, c)
    | (.ok id, c) => (.json 201 (Receipt.mk id), c)

def list (c : Coordinator) : Response :=
  .json 200 (ExpressionListing.mk (c.store.listExpressions.map Expression.summary))

def detail (c : Coordinator) (segment : List Char) : Response :=
  match decode? segment with
  | none => ⟨400, "Invalid URL: Invalid UTF-8 in \x60id\x60"⟩
  | some text =>
    match (Id.parse? text : Option ExpressionId) with
    | none => .refusal 422 "Invalid expression ID"
    | some id =>
      match c.store.expression id with
      | .error fault => .ofFault fault
      | .ok e => .json 200 (ExpressionDetail.mk e.summary)

def assign (c : Coordinator) (s : Supply) : Response × Coordinator :=
  match c.fetch s.asked s.now with
  | (none, c) => (.refusal 404 "No tasks available", c)
  | (some a, c) => (.json 200 (AssignmentReply.mk (some a)), c)

def receive (c : Coordinator) (s : Supply) (m : TaskResult) : Response × Coordinator :=
  match m.report? with
  | .error _ => (.refusal 422 "Result or error is required", c)
  | .ok report =>
    match c.report m.id report s.now with
    | (.error fault, c) => (.ofFault fault, c)
    | (.ok _, c) => (.json 200 (Acknowledgement.mk "success"), c)

def answer (c : Coordinator) (r : Request) (s : Supply) : Route → Method → Response × Coordinator
  | .calculate, .post => withContent c r (submit c s)
  | .expressions, .get => (list c, c)
  | .expression segment, .get => (detail c segment, c)
  | .task, .get => assign c s
  | .task, .post => withContent c r (receive c s)
  | _, _ => (.empty 405, c)

/-- Answers a request. `HEAD` does what `GET` does, and drops the body. -/
def respond (c : Coordinator) (r : Request) (s : Supply) : Response × Coordinator :=
  match Route.ofTarget? r.target with
  | none => (.empty 404, c)
  | some route =>
    match r.method with
    | .head =>
      let (response, c) := answer c r s route .get
      (response.withoutBody, c)
    | method => answer c r s route method

end Reckoner.Http
