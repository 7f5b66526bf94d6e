/-
Clips: spans of media on a track.

A clip shows its media from `trimIn` on and stops `trimOut` before its end; it
stands on the timeline from `start` to `finish`. A video clip may name the audio
clip that was detached from it, and that clip names it back.
-/
import Montage.Media
import Montage.Timeline.Label

namespace Montage

/-- The part of a frame that is shown, in percent. -/
structure Crop (α : Type) where
  x : α
  y : α
  width : α
  height : α
  locked : Bool
deriving BEq, Repr

/-- Where a frame is put, in percent and degrees. -/
structure Transform (α : Type) where
  x : α
  y : α
  scale : α
  rotation : α
deriving BEq, Repr

structure Clip (α : Type) (ι : Type := String) where
  id : ι
  mediaId : String
  trackId : String
  kind : MediaKind
  name : String
  start : α
  rawDuration : α
  trimIn : α
  trimOut : α
  crop : Option (Crop α)
  transform : Option (Transform α)
  audioMuted : Bool
  detachedAudio : Option ι
  linkedVideo : Option ι
deriving BEq, Repr

variable {α : Type} [Scalar α]

/-- The least visible length of a clip. -/
def minClipDuration : α := 0.1

namespace Crop

/-- A percentage of the frame. -/
def percent (j : Json α) : Report α :=
  (Read.number j).map fun v => Scalar.clamp v 0.0 100.0

/-- A crop read from its fields. -/
def read (fs : Fields α) : Report (Crop α) :=
  Crop.mk <$> fs.withDefault "x" 0.0 percent
    <*> fs.withDefault "y" 0.0 percent
    <*> fs.withDefault "width" 100.0 percent
    <*> fs.withDefault "height" 100.0 percent
    <*> fs.withDefault "locked" false Read.boolean

/-- The fields of a crop. -/
def fields (c : Crop α) : Fields α :=
  [("x", .real c.x), ("y", .real c.y), ("width", .real c.width), ("height", .real c.height),
    ("locked", .bool c.locked)]

/-- Whether a crop shows the whole frame. -/
def isIdentity (c : Crop α) : Bool :=
  c.x == 0.0 && c.y == 0.0 && c.width == 100.0 && c.height == 100.0

end Crop

namespace Transform

/-- A transform read from its fields. -/
def read (fs : Fields α) : Report (Transform α) :=
  Transform.mk <$> fs.withDefault "x" 50.0 Read.number
    <*> fs.withDefault "y" 50.0 Read.number
    <*> fs.withDefault "scale" 100.0
      (fun j => (Read.number j).map fun v => Scalar.clamp v 0.0 200.0)
    <*> fs.withDefault "rotation" 0.0
      (fun j => (Read.number j).map fun v => Scalar.clamp v (-360.0) 360.0)

/-- Whether a transform has a number that stands for nothing. -/
def isUndefined (t : Transform α) : Bool :=
  [t.x, t.y, t.scale, t.rotation].any Scalar.isUndefined

/-- The fields of a transform. -/
def fields (t : Transform α) : Fields α :=
  [("x", .real t.x), ("y", .real t.y), ("scale", .real t.scale), ("rotation", .real t.rotation)]

end Transform

namespace Clip

variable {ι : Type}

/-- How long a clip is seen or heard. -/
def visibleDuration (c : Clip α ι) : α := c.rawDuration - c.trimIn - c.trimOut

/-- Where a clip ends on the timeline. -/
def finish (c : Clip α ι) : α := c.start + c.visibleDuration

/-- Whether a time lies strictly inside a clip. -/
def contains (c : Clip α ι) (time : α) : Bool := c.start < time && time < c.finish

/-- Whether a whole number lies strictly inside a clip, compared exactly. -/
def containsWhole (c : Clip α ι) (time : Int) : Bool :=
  (Scalar.exact c.start).less (.finite time) && Exact.less (.finite time) (Scalar.exact c.finish)

/-- Whether a time that is given as data lies strictly inside a clip; none if it is no
number. -/
def containsData? (c : Clip α ι) : Json α → Option Bool
  | .real x => some (c.contains x)
  | .int n => some (c.containsWhole n)
  | .bool b => some (c.containsWhole (if b then 1 else 0))
  | _ => none

/-- A clip read from its fields. -/
def read [Label ι α] (fs : Fields α) : Report (Clip α ι) :=
  Clip.mk <$> fs.require "id" Label.read
    <*> fs.require "media_id" Read.text
    <*> fs.require "track_id" Read.text
    <*> fs.require "kind" Read.choice
    <*> fs.withDefault "name" "" Read.text
    <*> fs.withDefault "start_time" 0.0 Read.nonnegative
    <*> fs.require "raw_duration" Read.positive
    <*> fs.withDefault "trim_in" 0.0 Read.nonnegative
    <*> fs.withDefault "trim_out" 0.0 Read.nonnegative
    <*> fs.withDefault "crop" none (Read.optional (Read.record Crop.read))
    <*> fs.withDefault "transform" none (Read.optional (Read.record Transform.read))
    <*> fs.withDefault "audio_muted" false Read.boolean
    <*> fs.withDefault "detached_audio_clip_id" none (Read.optional Label.read)
    <*> fs.withDefault "linked_video_clip_id" none (Read.optional Label.read)

/-- The fields of a clip. -/
def fields [Label ι α] (c : Clip α ι) : Fields α :=
  [("id", Label.data c.id), ("media_id", .text c.mediaId), ("track_id", .text c.trackId),
    ("kind", .text c.kind.word), ("name", .text c.name), ("start_time", .real c.start),
    ("raw_duration", .real c.rawDuration), ("trim_in", .real c.trimIn),
    ("trim_out", .real c.trimOut),
    ("crop", match c.crop with | some k => .object k.fields | none => .null),
    ("transform", match c.transform with | some t => .object t.fields | none => .null),
    ("audio_muted", .bool c.audioMuted),
    ("detached_audio_clip_id", Label.optional c.detachedAudio),
    ("linked_video_clip_id", Label.optional c.linkedVideo)]

/-- A clip read back from its own fields. -/
def recheck [Label ι α] (c : Clip α ι) : Report (Clip α ι) := read c.fields

end Clip

end Montage
