/-
Edits of clips: adding, removing, changing, moving, resizing and cutting them.

An edit that touches a clip's timing settles its track anew. Trims never cut a
clip below its least visible length: the trim at the end gives way first.
-/
import Montage.Edit.Basic

namespace Montage

variable {α ι : Type} [Scalar α] [BEq ι]

/-- Trims that are not negative, `total` being their sum, cut so that the rest of a clip
is no shorter than the least visible length. -/
def shareTrims (raw total trimIn trimOut : α) : α × α :=
  let excess := total + minClipDuration - raw
  if 0.0 < excess then
    let take := Scalar.smaller trimOut excess
    let left := excess - take
    if 0.0 < left then (Scalar.larger 0.0 (trimIn - left), trimOut - take)
    else (trimIn, trimOut - take)
  else (trimIn, trimOut)

/-- The trims of a clip of some length: neither negative, and the rest no shorter
than the least visible length. -/
def clampTrims (raw trimIn trimOut : α) : α × α :=
  let trimIn := Scalar.larger 0.0 trimIn
  let trimOut := Scalar.larger 0.0 trimOut
  shareTrims raw (trimIn + trimOut) trimIn trimOut

/-- An end of a clip that is dragged. -/
inductive Edge where
  | start
  | finish
deriving BEq, DecidableEq, Repr, Inhabited

instance : Listed Edge where
  all := [.start, .finish]
  word
    | .start => "start"
    | .finish => "end"

namespace ClipChange

/-- The fields of a clip that an edit may set. -/
def editable : List String :=
  ["name", "start_time", "trim_in", "trim_out", "crop", "transform", "audio_muted"]

/-- The fields of a clip that say when it is seen. -/
def timing : List String := ["start_time", "trim_in", "trim_out", "raw_duration"]

/-- A value to calculate with. -/
def operand (j : Json α) : Except Refusal α :=
  match j.measure with
  | .ok x => .ok x
  | .error .illTyped => .error .illTyped
  | .error .tooLarge => .error .tooLarge

/-- A number among data, raised to zero and still to be read. -/
def floor : Json α → Except Refusal (Json α)
  | .real x => .ok (.real (Scalar.larger 0.0 x))
  | .int n => .ok (if 0 < n then .int n else .real 0.0)
  | .bool b => .ok (if b then .bool true else .real 0.0)
  | _ => .error .illTyped

/-- The changes with their start, if any, no earlier than zero. -/
def floored (changes : Fields α) : Except Refusal (Fields α) :=
  match changes.get? "start_time" with
  | none => .ok changes
  | some j => (floor j).map fun start => changes.put "start_time" start

/-- A trim among the changes, or the one there was, raised to zero. -/
def trim (changes : Fields α) (name : String) (before : α) : Except Refusal (Json α) :=
  floor ((changes.get? name).getD (.real before))

/-- The sum of two values. That of whole numbers is rounded once, when it is whole. -/
def sum (a b : Json α) : Except Refusal α :=
  match a.whole?, b.whole? with
  | some m, some n => operand (.int (m + n) : Json α)
  | _, _ => do return (← operand a) + (← operand b)

end ClipChange

/-- The clip with some fields set, trims kept in range, and read anew. -/
def Clip.change [Label ι α] (c : Clip α ι) (changes : Fields α) : Except Refusal (Clip α ι) := do
  let changes ← ClipChange.floored changes
  let trimIn ← ClipChange.trim changes "trim_in" c.trimIn
  let trimOut ← ClipChange.trim changes "trim_out" c.trimOut
  let total ← ClipChange.sum trimIn trimOut
  let (trimIn, trimOut) := shareTrims c.rawDuration total (← ClipChange.operand trimIn)
    (← ClipChange.operand trimOut)
  let merged := ((Fields.override c.fields changes).put "trim_in" (.real trimIn)).put
    "trim_out" (.real trimOut)
  (Clip.read merged).orRefuse

/-- The names in order, each once. -/
def sortedNames (names : List String) : List String :=
  names.eraseDups.mergeSort textLe

namespace Timeline

/-- The unlocked track of an id that takes a kind of media. -/
def receiver? (t : Timeline α ι) (trackId : String) (kind : MediaKind) : Option (Track α ι) :=
  match t.findTrack trackId with
  | some track => if track.locked || !track.kind.accepts kind then none else some track
  | none => none

/-- The timeline with an asset on a track that takes its kind. -/
def addClip [Label ι α] (t : Timeline α ι) (trackId : String) (asset : Asset α) (start : α)
    (clipId : Option String) (ids : Ids) : Timeline α ι × Ids :=
  match t.receiver? trackId asset.kind with
  | none => (t, ids)
  | some track =>
    let (id, ids) := ids.choose clipId
    let clip : Clip α ι := {
      id := Label.ofText α id, mediaId := asset.id, trackId := track.id, kind := asset.kind, name := asset.name
      start := Scalar.plain (Scalar.larger 0.0 start)
      rawDuration := Scalar.larger minClipDuration asset.timelineDuration
      trimIn := 0.0, trimOut := 0.0, crop := none, transform := none, audioMuted := false
      detachedAudio := none, linkedVideo := none }
    (t.replaceTrack (track.settle (track.clips ++ [clip])), ids)

/-- The timeline without a clip and its records. -/
def removeClip (t : Timeline α ι) (clipId : ι) : Timeline α ι :=
  match t.editable? clipId with
  | none => t
  | some (track, _) =>
    let kept := t.replaceTrack { track with clips := track.clips.filter (·.id != clipId) }
    kept.dropRecords [clipId]

/-- The timeline with some fields of a clip set. -/
def updateClip [Label ι α] (t : Timeline α ι) (clipId : ι) (changes : Fields α) :
    Except Refusal (Timeline α ι) :=
  match t.editable? clipId with
  | none => .ok t
  | some (track, clip) =>
    let unknown := (changes.map (·.1)).filter fun name => !ClipChange.editable.contains name
    if !unknown.isEmpty then .error (.clipFields (sortedNames unknown))
    else do
      let changed ← clip.change changes
      let clips := replaceClip track.clips changed
      let settled :=
        if ClipChange.timing.any fun name => changes.has name then track.settle clips
        else { track with clips }
      return (t.replaceTrack settled).renewed
        (changes.has "transform" && changed.transform.any Transform.isUndefined)

def trimClip [Label ι α] (t : Timeline α ι) (clipId : ι) (trimIn trimOut : α) :
    Except Refusal (Timeline α ι) :=
  t.updateClip clipId [("trim_in", .real trimIn), ("trim_out", .real trimOut)]

/-- The timeline with one end of a clip dragged to a time. The start takes the
trim with it, so that what is seen at the end stays where it is; an image grows
past its length at the end, any other clip as far as its media goes. -/
def resizeClip [Label ι α] (t : Timeline α ι) (clipId : ι) (edge : Edge) (time : α) :
    Except Refusal (Timeline α ι) :=
  match t.editable? clipId with
  | none => .ok t
  | some (track, clip) =>
    match edge with
    | .start =>
      let earliest := Scalar.larger 0.0 (clip.start - clip.trimIn)
      let start := Scalar.larger earliest (Scalar.smaller time (clip.finish - minClipDuration))
      let moved := start - clip.start
      t.updateClip clipId [("start_time", .real start), ("trim_in", .real (clip.trimIn + moved))]
    | .finish =>
      let finish := Scalar.larger (clip.start + minClipDuration) time
      let visible := finish - clip.start
      if clip.kind = .image then
        let resized := { clip with rawDuration := clip.trimIn + visible, trimOut := 0.0 }
        .ok ((t.replaceTrack (track.settle (replaceClip track.clips resized))).renewed
          (Scalar.isUndefined resized.rawDuration))
      else
        let visible := Scalar.smaller visible (clip.rawDuration - clip.trimIn)
        t.updateClip clipId [("trim_out", .real (clip.rawDuration - clip.trimIn - visible))]

/-- The timeline with a clip on another place or track. -/
def moveClip (t : Timeline α ι) (clipId : ι) (trackId : String) (start : α) : Timeline α ι :=
  match t.editable? clipId with
  | none => t
  | some (source, clip) =>
    match t.receiver? trackId clip.kind with
    | none => t
    | some target =>
      let moved := { clip with trackId := target.id, start := Scalar.larger 0.0 start }
      if source.id == target.id then
        t.replaceTrack (source.settle (replaceClip source.clips moved))
      else
        let left := t.replaceTrack
          { source with clips := source.clips.filter (·.id != clipId) }
        left.replaceTrack (target.settle (target.clips ++ [moved]))

/-- Whether a clip may be cut at a time: both parts would be long enough. -/
def cuts (clip : Clip α ι) (time : α) : Bool :=
  decide (clip.start + minClipDuration ≤ time) && decide (time ≤ clip.finish - minClipDuration)

/-- The part of a clip before a cut. -/
def headPart (clip : Clip α ι) (time : α) : Clip α ι :=
  { clip with
    trimOut := clip.rawDuration - (time - clip.start + clip.trimIn)
    audioMuted := false, detachedAudio := none, linkedVideo := none }

/-- The part of a clip after a cut. -/
def tailPart (clip : Clip α ι) (id : ι) (time : α) : Clip α ι :=
  { clip with
    id, start := time, trimIn := time - clip.start + clip.trimIn, name := clip.name ++ " (2)"
    audioMuted := false, detachedAudio := none, linkedVideo := none }

/-- The timeline with a clip cut in two. The first part keeps the id, the second
takes the transition at the end; links to the clip are dropped. -/
def splitClip [Label ι α] (t : Timeline α ι) (clipId : ι) (time : α) (newId : Option ι)
    (ids : Ids) : Timeline α ι × Ids :=
  match t.editable? clipId with
  | none => (t, ids)
  | some (track, clip) =>
    if !cuts clip time then (t, ids)
    else
      let (id, ids) := chooseLabel α ids newId
      let clips := track.clips.flatMap fun c =>
        if c.id == clipId then [headPart clip time, tailPart clip id time] else [c]
      let cut := t.replaceTrack (track.settle clips)
      let cut := { cut with transitions := cut.transitions.map fun x =>
        if x.clipId == clipId && x.side == .finish then { x with clipId := id } else x }
      if clip.detachedAudio.isSome || clip.linkedVideo.isSome then
        (cut.mapClips (Clip.unlink [clipId] false), ids)
      else (cut, ids)

def setClipAudioMuted [Label ι α] (t : Timeline α ι) (clipId : ι) (muted : Json α) :
    Except Refusal (Timeline α ι) :=
  t.updateClip clipId [("audio_muted", muted)]

end Timeline

end Montage
