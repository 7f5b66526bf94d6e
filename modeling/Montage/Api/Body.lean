/-
The bodies of requests: what may be said of a new thing, and what of a change.

In a change every field may be left out or null, and both mean no change.
-/
import Montage.Edit.Command

namespace Montage

/-- A new project. -/
structure NewProject where
  name : String
  ratio : AspectRatio
deriving BEq, DecidableEq, Repr

/-- A change of a project. -/
structure ProjectPatch where
  name : Option String
  ratio : Option AspectRatio
deriving BEq, DecidableEq, Repr

/-- A new track. -/
structure NewTrack where
  kind : TrackKind
  name : Option String
deriving BEq, DecidableEq, Repr

/-- A change of a track. -/
structure TrackPatch (α : Type) where
  muted : Option Bool
  locked : Option Bool
  gain : Option α
deriving BEq, Repr

/-- A new clip. -/
structure NewClip (α : Type) where
  trackId : String
  mediaId : String
  start : α
deriving BEq, Repr

/-- A clip dragged to a place. -/
structure Drag (α : Type) where
  trackId : String
  start : α
  snaps : Bool
deriving BEq, Repr

/-- A new overlay. -/
structure NewOverlay (α : Type) where
  text : String
  trackId : Option String
  start : α
  style : Fields α

/-- A change of an overlay. -/
structure OverlayPatch (α : Type) where
  trackId : Option String
  changes : Fields α

namespace Body

variable {α : Type} {β : Type}

/-- A checked value as data again. -/
def data (read : Json α → Report β) (write : β → Json α) (j : Json α) : Report (Json α) :=
  (read j).map write

/-- A field that may be left out or null. -/
def optional (fs : Fields α) (name : String) (read : Json α → Report β) : Report (Option β) :=
  fs.withDefault name none (Read.optional read)

/-- A field among the changes, if it is there and not null. -/
def change (fs : Fields α) (name : String) (read : Json α → Report (Json α)) :
    Report (Fields α) :=
  (optional fs name read).map fun value => value.toList.map ((name, ·))

/-- A field of a style, with its default. -/
def part (fs : Fields α) (name : String) (default : Json α) (read : Json α → Report (Json α)) :
    Report (Fields α) :=
  (fs.withDefault name default read).map fun value => [(name, value)]

/-- The fields of all parts. -/
def join : List (Report (Fields α)) → Report (Fields α)
  | [] => .valid []
  | r :: rest => (r.map fun fs => (fs ++ ·)).seq (join rest)

/-- A text, as data. -/
def text : Json α → Report (Json α) := data Read.text .text

variable [Scalar α]

/-- A number, as data. -/
def number : Json α → Report (Json α) := data Read.number .real

/-- A boolean, as data. -/
def boolean : Json α → Report (Json α) := data Read.boolean .bool

/-- A whole number, as data. -/
def integer : Json α → Report (Json α) := data Read.integer .int

/-- An object, as data. -/
def mapping : Json α → Report (Json α) := data Read.mapping .object

end Body

open Body

variable {α : Type} [Scalar α]

def NewProject.read (fs : Fields α) : Report NewProject :=
  NewProject.mk <$> fs.withDefault "name" "Untitled" Read.text
    <*> fs.withDefault "aspect_ratio" .wide Read.choice

def ProjectPatch.read (fs : Fields α) : Report ProjectPatch :=
  ProjectPatch.mk <$> optional fs "name" Read.text <*> optional fs "aspect_ratio" Read.choice

def NewTrack.read (fs : Fields α) : Report NewTrack :=
  NewTrack.mk <$> fs.withDefault "kind" .video Read.choice <*> optional fs "name" Read.text

def TrackPatch.read (fs : Fields α) : Report (TrackPatch α) :=
  TrackPatch.mk <$> optional fs "muted" Read.boolean
    <*> optional fs "locked" Read.boolean
    <*> optional fs "gain" Read.number

def NewClip.read (fs : Fields α) : Report (NewClip α) :=
  NewClip.mk <$> fs.require "track_id" Read.text
    <*> fs.require "media_id" Read.text
    <*> fs.withDefault "start_time" 0.0 Read.number

/-- The changes of a clip. -/
def Body.clipChanges (fs : Fields α) : Report (Fields α) :=
  join [change fs "name" text, change fs "start_time" number, change fs "trim_in" number,
    change fs "trim_out" number, change fs "crop" mapping, change fs "transform" mapping,
    change fs "audio_muted" boolean]

def Drag.read (fs : Fields α) : Report (Drag α) :=
  Drag.mk <$> fs.require "track_id" Read.text
    <*> fs.require "start_time" Read.number
    <*> fs.withDefault "snap" true Read.boolean

/-- The time of a cut. -/
def Body.cut (fs : Fields α) : Report α := fs.require "time" Read.number

/-- The trims of a clip. -/
def Body.trims (fs : Fields α) : Report (α × α) :=
  Prod.mk <$> fs.withDefault "trim_in" 0.0 Read.number
    <*> fs.withDefault "trim_out" 0.0 Read.number

/-- An end of a clip, and the time it is dragged to. -/
def Body.resize (fs : Fields α) : Report (Edge × α) :=
  Prod.mk <$> fs.require "edge" Read.choice <*> fs.require "time" Read.number

/-- The audio clip of a link. -/
def Body.link (fs : Fields α) : Report String := fs.require "audio_clip_id" Read.text

/-- The kind, length and side of a transition. -/
def Body.transition (fs : Fields α) : Report (TransitionKind × α × Side) :=
  (fun kind duration side => (kind, duration, side)) <$> fs.require "type" Read.choice
    <*> fs.withDefault "duration" 1.0 Read.number
    <*> fs.withDefault "position" .start Read.choice

/-- All fields of a look. -/
def Body.look (fs : Fields α) : Report (Fields α) :=
  join [part fs "name" (.text "custom") text, part fs "brightness" (.real 0.0) number,
    part fs "contrast" (.real 0.0) number, part fs "saturation" (.real 0.0) number,
    part fs "grayscale" (.bool false) boolean, part fs "sepia" (.bool false) boolean,
    part fs "blur" (.real 0.0) number]

/-- All fields of an overlay's style. -/
def Body.style (fs : Fields α) : Report (Fields α) :=
  join [part fs "duration" (.real Overlay.defaultDuration) (data Read.positive .real),
    part fs "x" (.real 50.0) number, part fs "y" (.real 50.0) number,
    part fs "font_size" (.int 32) integer, part fs "font_family" (.text "Arial") text,
    part fs "color" (.text "#ffffff") text,
    part fs "background_color" .null (data (Read.optional Read.text) .optionalText),
    part fs "bold" (.bool false) boolean, part fs "italic" (.bool false) boolean]

def NewOverlay.read (fs : Fields α) : Report (NewOverlay α) :=
  NewOverlay.mk <$> fs.require "text" Read.text
    <*> optional fs "track_id" Read.text
    <*> fs.withDefault "start_time" 0.0 Read.number
    <*> Body.style fs

def OverlayPatch.read (fs : Fields α) : Report (OverlayPatch α) :=
  (fun first trackId rest => ⟨trackId, first ++ rest⟩) <$> change fs "text" text
    <*> optional fs "track_id" Read.text
    <*> join [change fs "start_time" number, change fs "duration" number, change fs "x" number,
      change fs "y" number, change fs "font_size" integer, change fs "font_family" text,
      change fs "color" text, change fs "background_color" text, change fs "bold" boolean,
      change fs "italic" boolean]

end Montage
