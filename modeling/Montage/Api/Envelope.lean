/-
The envelope of errors: what a request that fails is answered with.

An envelope has a code, a message, a status, perhaps the kind of thing it is
about, and details.
-/
import Montage.Edit.Basic
import Montage.Export.Compile

namespace Montage

structure Envelope (α : Type) where
  code : String
  message : String
  status : Int
  kind : Option String
  details : Fields α

namespace Envelope

variable {α : Type}

/-- The fields of an envelope. -/
def fields (e : Envelope α) : Fields α :=
  [("error", .object [("code", .text e.code), ("message", .text e.message),
    ("http_status", .int e.status), ("resource_kind", .optionalText e.kind),
    ("details", .object e.details)])]

/-- The status of requests whose arguments cannot stand. -/
def badRequest : Nat := 400

/-- The status of requests for something that is not there. -/
def notThere : Nat := 404

/-- The status of requests that cannot be carried out as things stand. -/
def unprocessable : Nat := 422

/-- Something that is not there. -/
def notFound (kind id : String) : Envelope α :=
  ⟨kind ++ ".not_found", kind ++ " " ++ id ++ " not found", notThere, some kind,
    [("id", .text id)]⟩

/-- An edit that is refused. -/
def invalidEdit (message : String) : Envelope α :=
  ⟨"video_timeline.invalid_edit", message, badRequest, some "timeline", []⟩

/-- A render that cannot be made. -/
def unrenderable (code message : String) (details : Fields α) : Envelope α :=
  ⟨code, message, unprocessable, some "render", details⟩

/-- A timeline that cannot be compiled for a reason of its own. -/
def ofCompileError? [Scalar α] (e : CompileError α) : Option (Envelope α) :=
  e.code?.map fun code => unrenderable code e.message e.details

variable [Scalar α]

/-- An envelope of unchecked parts; details that hold nothing are no details. -/
def make (code message status kind details : Json α) : Report (Envelope α) :=
  let details : Json α := if details.isVoid then .object [] else details
  Envelope.mk <$> (Read.text code).under (.field "code")
    <*> (Read.text message).under (.field "message")
    <*> (Read.integer status).under (.field "http_status")
    <*> (Read.optional Read.text kind).under (.field "resource_kind")
    <*> (Read.mapping details).under (.field "details")

/-- Something that is not there, whatever its kind and its id are. -/
def absence (kind id : Json α) : Report (Envelope α) :=
  make (.text (kind.named ++ ".not_found"))
    (.text (kind.named ++ " " ++ id.named ++ " not found")) (.int notThere) kind
    (.object [("id", id)])

end Envelope

end Montage
