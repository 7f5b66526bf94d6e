/-
Tracks: rows of clips of one kind.
-/
import Montage.Timeline.Clip

namespace Montage

/-- What a track carries. -/
inductive TrackKind where
  | video
  | audio
  | image
  | text
deriving BEq, DecidableEq, Repr, Inhabited

instance : Listed TrackKind where
  all := [.video, .audio, .image, .text]
  word
    | .video => "video"
    | .audio => "audio"
    | .image => "image"
    | .text => "text"

namespace TrackKind

def word (k : TrackKind) : String := Listed.word k

/-- What a track of this kind is called before its number. -/
def title : TrackKind → String
  | .video => "Video"
  | .audio => "Audio"
  | .image => "Image"
  | .text => "Text"

/-- Whether a track of this kind shows frames. -/
def isVisual (k : TrackKind) : Bool := k == .video || k == .image

/-- Whether media of a kind may go on a track of this kind. -/
def accepts (k : TrackKind) : MediaKind → Bool
  | .audio => k == .audio
  | .video => k.isVisual
  | .image => k.isVisual

end TrackKind

structure Track (α : Type) (ι : Type := String) where
  id : String
  name : String
  kind : TrackKind
  clips : List (Clip α ι)
  muted : Bool
  locked : Bool
  gain : α
deriving BEq, Repr

namespace Track

variable {α ι : Type} [Scalar α]

def isVisual (t : Track α ι) : Bool := t.kind.isVisual

/-- The clip with an id. -/
def findClip [BEq ι] (t : Track α ι) (id : ι) : Option (Clip α ι) := t.clips.find? (·.id == id)

/-- The latest end of a clip, zero on an empty track. -/
def finish (t : Track α ι) : α := Scalar.greatest (t.clips.map Clip.finish)

/-- A track read from its fields. -/
def read [Label ι α] (fs : Fields α) : Report (Track α ι) :=
  Track.mk <$> fs.require "id" Read.text
    <*> fs.require "name" Read.text
    <*> fs.require "kind" Read.choice
    <*> fs.withDefault "clips" [] (Read.list .notTuple (Read.record Clip.read))
    <*> fs.withDefault "muted" false Read.boolean
    <*> fs.withDefault "locked" false Read.boolean
    <*> fs.withDefault "gain" 1.0
      (fun j => (Read.number j).map fun v => Scalar.clamp v 0.0 1.0)

/-- The fields of a track. -/
def fields [Label ι α] (t : Track α ι) : Fields α :=
  [("id", .text t.id), ("name", .text t.name), ("kind", .text t.kind.word),
    ("clips", .list (t.clips.map fun c => .object c.fields)), ("muted", .bool t.muted),
    ("locked", .bool t.locked), ("gain", .real t.gain)]

end Track

end Montage
