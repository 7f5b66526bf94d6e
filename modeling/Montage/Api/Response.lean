/-
What requests carry and what they are answered with.

A request carries data or nothing. It is answered with a status and data, or it
breaks down in a way that no answer is meant for. A status of 400 or more is a
failure.
-/
import Montage.Api.Envelope
import Montage.Json.Reader
import Montage.Render.Studio
import Montage.Text.Encoding

namespace Montage

/-- What comes with a request. -/
inductive Payload (α : Type) where
  | absent
  | data (value : Json α)
  | text (content : String)

/-- What no answer is meant for. -/
inductive Breakdown (α : Type) where
  | edit (r : Refusal)
  | render (e : CompileError α)
  | run (e : RunError)
  /-- What is asked for has no order. -/
  | unordered
  /-- The answer cannot be written in bytes. -/
  | unwritableAnswer
  /-- What is said of a failure cannot be written in bytes. -/
  | unwritableFailure
deriving BEq, Repr

inductive Response (α : Type) where
  | answer (status : Nat) (body : Json α)
  | breakdown (b : Breakdown α)

namespace Response

variable {α : Type}

/-- Whether a request has failed. -/
def isFailure : Response α → Bool
  | .answer status _ => decide (400 ≤ status)
  | .breakdown _ => true

/-- A response that can be written in bytes, as it stands. -/
def written : Response α → Response α
  | .answer status body =>
    if body.isWritable then .answer status body
    else .breakdown (if 400 ≤ status then .unwritableFailure else .unwritableAnswer)
  | r => r

/-- A request that was carried out. -/
def ok (body : Json α) : Response α := .answer 200 body

/-- A failure that is put into words. -/
def failed (status : Nat) (detail : Json α) : Response α :=
  .answer status (.object [("detail", detail)])

/-- A failure in an envelope. -/
def enveloped (e : Envelope α) : Response α := failed e.status.toNat (.object e.fields)

def notFound (kind id : String) : Response α := enveloped (.notFound kind id)

/-- Data that is not what it should be. -/
def rejected (problems : List Problem) : Response α :=
  failed Envelope.unprocessable (Json.texts (problems.map Problem.text))

/-- Data in which there are problems. They are reported with what they are about. -/
def faulty (j : Json α) (problems : List Problem) : Response α :=
  if problems.all fun p => (j.follow p.path).isWritable then
    rejected (problems.map fun p => { p with path := .field "body" :: p.path })
  else .breakdown .unwritableFailure

/-- An edit that is refused. -/
def refused (r : Refusal) : Response α :=
  match r with
  | .invalid _ => enveloped (.invalidEdit r.message)
  | .clipFields _ => enveloped (.invalidEdit r.message)
  | .overlayFields _ => enveloped (.invalidEdit r.message)
  | _ => .breakdown (.edit r)

/-- A render that is not made. -/
def unrendered [Scalar α] (e : RenderError α) : Response α :=
  match e with
  | .noProject id => notFound "timeline" id
  | .compile e =>
    match Envelope.ofCompileError? e with
    | some envelope => enveloped envelope
    | none => .breakdown (.render e)

end Response

namespace Payload

variable {α : Type} [Scalar α]

/-- A body that cannot be read. -/
def garbled : Response α :=
  .failed Envelope.badRequest (.text "There was an error parsing the body")

/-- The value of a payload, if there is one. -/
def value? : Payload α → Except (Response α) (Option (Json α))
  | .absent => .ok none
  | .data j => .ok (some j)
  | .text s =>
    if s.isEmpty then .ok none
    else
      match recode? s with
      | none => .error garbled
      | some content =>
        match Json.read content with
        | .ok j => .ok (some j)
        | .error (.malformed offset) =>
          .error (.rejected [⟨[.field "body", .item offset], .unreadable⟩])
        | .error .tooLong => .error garbled
        | .error .tooDeep => .error garbled

/-- What the fields of a payload say. -/
def read {β : Type} (p : Payload α) (fields : Fields α → Report β) : Except (Response α) β := do
  match ← p.value? with
  | none => throw (.rejected [⟨[.field "body"], .missing⟩])
  | some j =>
    let report : Report β := match j with
      | .object fs => fields fs
      | _ => .fault .notBody
    match report with
    | .valid b => return b
    | .invalid problems => throw (.faulty j problems)

end Payload

/-! Things as they are shown. -/

variable {α : Type} [Scalar α]

/-- A project as it stands. -/
def Project.shown (p : Project α) : Json α :=
  .object [("project_id", .text p.id), ("timeline", .object p.current.fields),
    ("duration", .real p.current.duration), ("can_undo", .bool p.canUndo),
    ("can_redo", .bool p.canRedo)]

/-- A job as it stands. -/
def Job.shown (j : Job α) : Json α :=
  .object (j.fields ++ [("finished", .bool j.finished.isSome)])

end Montage
