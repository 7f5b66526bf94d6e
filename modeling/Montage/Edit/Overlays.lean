/-
Edits of text overlays.

A new overlay goes to the first free place at or after the wanted start: as long
as it meets another overlay of its track it moves to the latest end of those it
meets. Overlays that are changed or moved push those after them to the right.
-/
import Montage.Edit.Tracks
import Montage.Edit.Clips

namespace Montage

variable {α ι : Type} [Scalar α] [BEq ι]

/-- The start of a new overlay of some length among its siblings. Each step goes
to the end of a sibling, so that their number of steps is enough. -/
def placeAfter (siblings : List (Overlay α)) (length : α) : Nat → α → α
  | 0, start => start
  | fuel + 1, start =>
    if collides siblings start length none then
      let met := siblings.filter fun o =>
        decide (start < o.finish) && decide (o.start < start + length)
      placeAfter siblings length fuel ((Scalar.greatest? (met.map Overlay.finish)).getD start)
    else start

namespace Overlay

/-- The fields of an overlay that an edit may set. -/
def editable : List String :=
  ["text", "x", "y", "font_size", "font_family", "color", "background_color", "bold", "italic",
    "start_time", "duration"]

end Overlay

namespace Timeline

/-- The overlays of a track. -/
def overlaysOn (t : Timeline α ι) (trackId : String) : List (Overlay α) :=
  t.overlays.filter (·.trackId == trackId)

/-- The timeline with the overlays of a track pushed apart. -/
def settleOverlays (t : Timeline α ι) (trackId : String) : Timeline α ι :=
  let resolved := (resolve (t.overlaysOn trackId)).reverse
  { t with overlays := t.overlays.map fun o => (resolved.find? (·.id == o.id)).getD o }

/-- The text track an overlay goes to: the named one, or the first, or a new one. -/
def overlayTrack (t : Timeline α ι) (trackId : Option String) (ids : Ids) :
    Option (Timeline α ι × Ids × String) :=
  match trackId with
  | some id =>
    match t.findTrack id with
    | some track => if track.kind = .text then some (t, ids, id) else none
    | none => none
  | none =>
    match t.tracksOfKind [.text] with
    | track :: _ => some (t, ids, track.id)
    | [] =>
      let (t, ids) := t.addTrack .text none none ids
      t.tracks.getLast?.map fun track => (t, ids, track.id)

/-- The timeline with a new overlay at the first free place of its track. -/
def addOverlay (t : Timeline α ι) (text : Json α) (trackId : Option String)
    (start overlayId : Json α) (style : Fields α) (ids : Ids) :
    Except Refusal (Timeline α ι × Ids) :=
  match t.overlayTrack trackId ids with
  | none => .ok (t, ids)
  | some (t, ids, trackId) =>
    let (id, ids) : Json α × Ids :=
      if overlayId.isVoid then (.text ids.next, ids.rest) else (overlayId, ids)
    do
      let start ← ClipChange.floor start
      if style.has "id" then throw .illTyped
      let overlay ← (Overlay.read (style.override
        [("id", id), ("track_id", .text trackId), ("text", text),
          ("start_time", start)])).orRefuse
      let siblings := sortByStart (t.overlaysOn trackId)
      let start := placeAfter siblings overlay.duration (siblings.length + 1) overlay.start
      return ({ t with overlays := t.overlays ++ [{ overlay with start }] }, ids)

/-- The timeline with some fields of an overlay set. -/
def updateOverlay (t : Timeline α ι) (overlayId : String) (changes : Fields α) :
    Except Refusal (Timeline α ι) :=
  match t.findOverlay overlayId with
  | none => .ok t
  | some overlay =>
    let unknown := (changes.map (·.1)).filter fun name => !Overlay.editable.contains name
    if !unknown.isEmpty then .error (.overlayFields (sortedNames unknown))
    else do
      let changed ← (Overlay.read (Fields.override overlay.fields changes)).orRefuse
      let updated : Timeline α ι := { t with overlays := t.overlays.map fun o =>
        if o.id == overlayId then changed else o }
      if changes.has "start_time" || changes.has "duration" then
        return updated.settleOverlays overlay.trackId
      else return updated

def removeOverlay (t : Timeline α ι) (overlayId : String) : Timeline α ι :=
  { t with overlays := t.overlays.filter (·.id != overlayId) }

/-- The timeline with an overlay on another text track. -/
def moveOverlay (t : Timeline α ι) (overlayId trackId : String) : Timeline α ι :=
  match t.findOverlay overlayId, t.findTrack trackId with
  | some overlay, some target =>
    if overlay.trackId == trackId || target.kind != .text then t
    else
      let moved : Timeline α ι := { t with overlays := t.overlays.map fun o =>
        if o.id == overlayId then { o with trackId } else o }
      moved.settleOverlays trackId
  | _, _ => t

end Timeline

end Montage
