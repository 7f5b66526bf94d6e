/-
Text overlays: words shown over the picture for a while.
-/
import Montage.Schema.Read

namespace Montage

structure Overlay (α : Type) where
  id : String
  trackId : String
  text : String
  x : α
  y : α
  fontSize : Int
  fontFamily : String
  color : String
  background : Option String
  bold : Bool
  italic : Bool
  start : α
  duration : α
deriving BEq, Repr

namespace Overlay

variable {α : Type} [Scalar α]

/-- How long an overlay is shown unless it says otherwise. -/
def defaultDuration : α := 5.0

/-- Where an overlay ends on the timeline. -/
def finish (o : Overlay α) : α := o.start + o.duration

/-- A percentage of the frame. -/
def percent (j : Json α) : Report α :=
  (Read.number j).map fun v => Scalar.clamp v 0.0 100.0

/-- An overlay read from its fields. -/
def read (fs : Fields α) : Report (Overlay α) :=
  Overlay.mk <$> fs.require "id" Read.text
    <*> fs.require "track_id" Read.text
    <*> fs.require "text" Read.text
    <*> fs.withDefault "x" 50.0 percent
    <*> fs.withDefault "y" 50.0 percent
    <*> fs.withDefault "font_size" 32 Read.integer
    <*> fs.withDefault "font_family" "Arial" Read.text
    <*> fs.withDefault "color" "#ffffff" Read.text
    <*> fs.withDefault "background_color" none (Read.optional Read.text)
    <*> fs.withDefault "bold" false Read.boolean
    <*> fs.withDefault "italic" false Read.boolean
    <*> fs.withDefault "start_time" 0.0 Read.nonnegative
    <*> fs.withDefault "duration" defaultDuration Read.positive

/-- The fields of an overlay. -/
def fields (o : Overlay α) : Fields α :=
  [("id", .text o.id), ("track_id", .text o.trackId), ("text", .text o.text), ("x", .real o.x),
    ("y", .real o.y), ("font_size", .int o.fontSize), ("font_family", .text o.fontFamily),
    ("color", .text o.color), ("background_color", .optionalText o.background),
    ("bold", .bool o.bold), ("italic", .bool o.italic), ("start_time", .real o.start),
    ("duration", .real o.duration)]

end Overlay

end Montage
