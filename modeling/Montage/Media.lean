/-
The media library: what clips are cut from.

An asset is a description only; its source is handed to the engine as it is. The
library keeps its assets by id, and lists them by the time they came in.
-/
import Montage.Ids
import Montage.Instant

namespace Montage

/-- What a clip or an asset holds. -/
inductive MediaKind where
  | video
  | audio
  | image
deriving BEq, DecidableEq, Repr, Inhabited

instance : Listed MediaKind where
  all := [.video, .audio, .image]
  word
    | .video => "video"
    | .audio => "audio"
    | .image => "image"

def MediaKind.word (k : MediaKind) : String := Listed.word k

/-- What is said of a new asset. -/
structure Registration (α : Type) where
  name : String
  kind : MediaKind
  source : String
  duration : Option α
  width : Option Int
  height : Option Int
  hasAudio : Bool
deriving BEq, Repr

/-- An asset of the library; `created` is when it came in. -/
structure Asset (α : Type) extends Registration α where
  id : String
  created : Instant
deriving BEq, Repr

namespace Registration

variable {α : Type} [Scalar α]

/-- A registration read from its fields. -/
def read (fs : Fields α) : Report (Registration α) :=
  Registration.mk <$> fs.require "name" Read.text
    <*> fs.require "kind" Read.choice
    <*> fs.require "source_uri" Read.text
    <*> fs.withDefault "duration" none (Read.optional Read.nonnegative)
    <*> fs.withDefault "width" none (Read.optional Read.integer)
    <*> fs.withDefault "height" none (Read.optional Read.integer)
    <*> fs.withDefault "has_audio" true Read.boolean

/-- The fields of a registration. -/
def fields (r : Registration α) : Fields α :=
  [("name", .text r.name), ("kind", .text r.kind.word), ("source_uri", .text r.source),
    ("duration", .optionalReal r.duration), ("width", .optionalInt r.width),
    ("height", .optionalInt r.height), ("has_audio", .bool r.hasAudio)]

end Registration

namespace Asset

variable {α : Type} [Scalar α]

/-- The length an image has on a track unless it says otherwise. -/
def imageDuration : α := 5.0

/-- The length an asset has on a track. -/
def timelineDuration (a : Asset α) : α :=
  let unknown : α := if a.kind = .image then imageDuration else 0.0
  match a.duration with
  | some d => if d == 0.0 then unknown else d
  | none => unknown

/-- An asset read from its fields; one without an id or a time takes the given one. -/
def read (newId : String) (now : Instant) (fs : Fields α) : Report (Asset α) :=
  (fun id r created => { toRegistration := r, id, created }) <$>
    fs.withDefault "id" newId Read.text <*> Registration.read fs
    <*> fs.withDefault "created_at" now Read.instant

/-- The fields of an asset. -/
def fields (a : Asset α) : Fields α := ("id", .text a.id) :: a.toRegistration.fields

end Asset

/-- The assets by id, in the order their ids first came in. -/
structure Library (α : Type) where
  assets : List (Asset α)
deriving BEq, Repr

namespace Library

variable {α : Type}

instance : EmptyCollection (Library α) := ⟨⟨[]⟩⟩

/-- The asset with an id. -/
def get? (l : Library α) (id : String) : Option (Asset α) := l.assets.find? (·.id == id)

/-- Whether there is an asset with an id. -/
def has (l : Library α) (id : String) : Bool := l.assets.any (·.id == id)

/-- The library with one asset more, or with the one of that id replaced. -/
def insert (l : Library α) (a : Asset α) : Library α :=
  if l.has a.id then ⟨l.assets.map fun b => if b.id == a.id then a else b⟩
  else ⟨l.assets ++ [a]⟩

/-- The library without an asset. -/
def erase (l : Library α) (id : String) : Library α := ⟨l.assets.filter (·.id != id)⟩

/-- The assets of a kind, or all, the earliest first; none if they have no order. -/
def list? (l : Library α) (kind : Option MediaKind) : Option (List (Asset α)) :=
  let chosen : List (Asset α) := match kind with
    | some k => l.assets.filter fun a => a.kind == k
    | none => l.assets
  Instant.sorted? (·.created) (fun a b => a ≤ b) chosen

/-- The assets that a value chooses by their kind: null chooses all, what is no kind none. -/
def select? (l : Library α) (kind : Json α) : Option (List (Asset α)) :=
  match kind with
  | .null => l.list? none
  | .text s => (Listed.ofWord? s).elim (some []) fun k => l.list? (some k)
  | _ => some []

/-- The ids of the library. -/
def ids (l : Library α) : List String := l.assets.map (·.id)

end Library

end Montage
