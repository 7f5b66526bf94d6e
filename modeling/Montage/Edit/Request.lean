/-
Edits asked for by name.

A request names an edit and gives its arguments as data. Before the timeline is looked at,
amounts that are given as whole numbers become numbers, the arguments of a bag join the
others, and the asset is found (`Request.resolve`). A request for something that is not
there asks for nothing, whatever else it says.
-/
import Montage.Edit.Command

namespace Montage

/-- What an edit takes: the arguments that must be there, others that may, and the name of
a bag, if any further ones may come. -/
structure Signature where
  required : List String
  optional : List String
  bag : Option String
deriving BEq, DecidableEq, Repr, Inhabited

namespace Signature

/-- What the edit of a name takes. -/
def ofName? : String → Option Signature
  | "set_project_name" => some ⟨["name"], [], none⟩
  | "set_aspect_ratio" => some ⟨["aspect_ratio"], [], none⟩
  | "add_track" => some ⟨[], ["kind", "name", "track_id"], none⟩
  | "remove_track" => some ⟨["track_id"], [], none⟩
  | "toggle_track_mute" => some ⟨["track_id"], [], none⟩
  | "toggle_track_lock" => some ⟨["track_id"], [], none⟩
  | "set_track_gain" => some ⟨["track_id", "gain"], [], none⟩
  | "add_clip_to_track" => some ⟨["track_id", "media", "start_time"], ["clip_id"], none⟩
  | "remove_clip" => some ⟨["clip_id"], [], none⟩
  | "update_clip" => some ⟨["clip_id"], [], some "changes"⟩
  | "trim_clip" => some ⟨["clip_id", "trim_in", "trim_out"], [], none⟩
  | "resize_clip" => some ⟨["clip_id", "edge", "time"], [], none⟩
  | "move_clip" => some ⟨["clip_id", "track_id", "start_time"], [], none⟩
  | "split_clip" => some ⟨["clip_id", "split_time"], ["new_clip_id"], none⟩
  | "detach_audio_from_video" => some ⟨["video_clip_id"], ["audio_clip_id"], none⟩
  | "link_audio" => some ⟨["video_clip_id", "audio_clip_id"], [], none⟩
  | "unlink_audio" => some ⟨["clip_id"], [], none⟩
  | "set_clip_audio_muted" => some ⟨["clip_id", "muted"], [], none⟩
  | "repair_links" => some ⟨[], [], none⟩
  | "add_text_overlay" => some ⟨["text"], ["track_id", "start_time", "overlay_id"], some "style"⟩
  | "update_text_overlay" => some ⟨["overlay_id"], [], some "changes"⟩
  | "remove_text_overlay" => some ⟨["overlay_id"], [], none⟩
  | "move_text_overlay_to_track" => some ⟨["overlay_id", "track_id"], [], none⟩
  | "set_transition" => some ⟨["clip_id", "type", "duration"], ["position"], none⟩
  | "remove_transition" => some ⟨["clip_id"], ["position"], none⟩
  | "set_filter" => some ⟨["clip_id"], [], some "params"⟩
  | "reset_filter" => some ⟨["clip_id"], [], none⟩
  | _ => none

/-- Whether an argument has a place of its own. -/
def takes (s : Signature) (name : String) : Bool :=
  s.required.contains name || s.optional.contains name

/-- Whether some arguments are enough and none is too many. None may be called like the
timeline itself. -/
def fits {α : Type} (s : Signature) (arguments : Fields α) : Bool :=
  s.required.all arguments.has && !arguments.has "timeline" &&
    (s.bag.isSome || arguments.all fun f => s.takes f.1)

end Signature

/-- An edit asked for by name. -/
structure Request (α : Type) where
  name : String
  arguments : Fields α
  /-- The asset that the arguments name, once it is found. -/
  asset : Option (Asset α) := none

namespace Request

variable {α : Type} [Scalar α]

/-- The arguments that are times, lengths or amounts. -/
def amounts : List String :=
  ["start_time", "split_time", "time", "trim_in", "trim_out", "duration", "gain"]

/-- The arguments in which a whole number that is an amount has become a number. One that
is too large is refused whatever it is for. -/
def measured (arguments : Fields α) : Except Refusal (Fields α) :=
  arguments.mapM fun (name, value) => do
    match value with
    | .int _ =>
      if amounts.contains name then return (name, .real (← ClipChange.operand value))
      else return (name, value)
    | _ => return (name, value)

/-- The names and values that a bag puts together pair by pair, from some place on. -/
def pairs (place : Nat) : List (Json α) → Except Refusal (List (Json α × Json α))
  | [] => .ok []
  | j :: rest =>
    match j.elements? with
    | none => .error .illTyped
    | some [name, value] =>
      if !name.isKey then .error .illTyped else ((name, value) :: ·) <$> pairs (place + 1) rest
    | some parts => .error (.noPair place parts.length)

/-- The arguments in a bag: an object, or pairs of a name and a value. -/
def contents : Json α → Except Refusal (Fields α)
  | .object fs => .ok fs
  | bag => do
    let some parts := bag.elements? | throw .illTyped
    (← pairs 0 parts).mapM fun
      | (.text name, value) => pure (name, value)
      | _ => throw .illTyped

/-- The arguments, those of a bag among the others and in their place. -/
def unpacked (bag : String) (arguments : Fields α) : Except Refusal (Fields α) :=
  match arguments.get? bag with
  | none => .ok arguments
  | some j => (contents j).map (arguments.drop bag).override

/-- The asset asked for. -/
def findAsset (arguments : Fields α) (library : Library α) : Except Refusal (Asset α) :=
  match arguments.get? "media" with
  | none => .error (.noArgument "media")
  | some id =>
    if !id.isKey then .error .illTyped
    else
      let found := match id with
        | .text s => library.get? s
        | _ => none
      found.elim (.error (.unknownMedia id.named)) .ok

/-- The request as it is handed to a timeline. -/
def resolve (r : Request α) (library : Library α) : Except Refusal (Request α) := do
  let some signature := Signature.ofName? r.name | throw (.unknownEdit r.name)
  let arguments ← measured r.arguments
  let arguments ← signature.bag.elim (pure arguments) fun bag => unpacked bag arguments
  let asset ←
    if signature.takes "media" then some <$> findAsset arguments library else pure none
  return { r with arguments, asset }

/-- Any argument; one that is left out is null. -/
def any (r : Request α) (name : String) : Json α := (r.arguments.get? name).getD .null

/-- The id of a track or an overlay that there may be; a value that is no text is the id of
none. -/
def id? (r : Request α) (name : String) : Option String :=
  match r.any name with
  | .text s => some s
  | _ => none

/-- The arguments without a place of their own. -/
def further (r : Request α) : Fields α :=
  r.arguments.filter fun f => !(Signature.ofName? r.name).any (·.takes f.1)

/-- An id of something new as a text. It may be left out, and a value that holds nothing is
as good as none. -/
def newId (r : Request α) (name : String) : Except Refusal (Option String) :=
  match r.any name with
  | .text s => .ok (some s)
  | j => if j.isVoid then .ok none else .error (.invalid [⟨[.field "id"], .notText⟩])

variable {ι : Type} [BEq ι] [Label ι α]

/-- The id of a clip that there may be. -/
def clip? (r : Request α) (name : String) : Option ι := Label.ofData? (r.any name)

/-- The id of a new clip, if one is given. -/
def newClip (r : Request α) (name : String) : Except Refusal (Option ι) :=
  let j := r.any name
  if j.isVoid then .ok none
  else
    match Label.ofData? j with
    | some id => .ok (some id)
    | none => .error (.invalid [⟨[.field "id"], .notText⟩])

/-- The new track asked for. A track without a name is called after its kind, which must
then be one that there is. -/
def newTrack (r : Request α) : Except Refusal (Edit α ι) := do
  let name := r.any "name"
  let kind := (r.arguments.get? "kind").getD (.text TrackKind.video.word)
  let known : Report TrackKind := (Read.choice kind).under (.field "kind")
  if name.isVoid && known.value?.isNone then
    throw (if kind.isKey then .unknownKind kind.named else .illTyped)
  let optional (field : String) (j : Json α) : Report (Option String) :=
    if j.isVoid then .valid none else ((Read.text j).map some).under (.field field)
  ((fun trackId name kind => .addTrack kind name trackId) <$> optional "id" (r.any "track_id")
    <*> optional "name" name <*> known).orRefuse

/-- The transition asked for: its kind, length and side. Its clip must be called by a
text. -/
def transition (r : Request α) : Report (TransitionKind × α × Side) :=
  (fun (_ : String) kind duration side => (kind, duration, side)) <$>
    r.arguments.require "clip_id" Read.text
    <*> r.arguments.require "type" Read.choice
    <*> r.arguments.require "duration" Read.number
    <*> r.arguments.withDefault "position" .start Read.choice

/-- The edit that a request asks for, if there is something to do. What a request is for
is looked up before the numbers it gives are used. -/
def edit? (r : Request α) (t : Timeline α ι) : Except Refusal (Option (Edit α ι)) := do
  let operand (name : String) : Except Refusal α := ClipChange.operand (r.any name)
  let clipId : Option ι := r.clip? "clip_id"
  match r.name with
  | "set_project_name" => return some (.setProjectName (r.any "name"))
  | "set_aspect_ratio" => return some (.setAspectRatio (r.any "aspect_ratio"))
  | "add_track" => return some (← r.newTrack)
  | "remove_track" => return (r.id? "track_id").map .removeTrack
  | "toggle_track_mute" => return (r.id? "track_id").map .toggleTrackMute
  | "toggle_track_lock" => return (r.id? "track_id").map .toggleTrackLock
  | "set_track_gain" =>
    match (r.id? "track_id").bind t.findTrack with
    | none => return none
    | some track => return some (.setTrackGain track.id (← operand "gain"))
  | "add_clip_to_track" =>
    match r.asset with
    | none => return none
    | some asset =>
      match (r.id? "track_id").bind fun id => t.receiver? id asset.kind with
      | none => return none
      | some track =>
        return some (.addClip track.id asset (← operand "start_time") (← r.newId "clip_id"))
  | "remove_clip" => return clipId.map .removeClip
  | "update_clip" => return clipId.map fun id => .updateClip id r.further
  | "trim_clip" =>
    return clipId.map fun id =>
      .updateClip id [("trim_in", r.any "trim_in"), ("trim_out", r.any "trim_out")]
  | "resize_clip" =>
    let edge := match r.any "edge" with
      | .text "start" => Edge.start
      | _ => Edge.finish
    match clipId.bind t.editable? with
    | none => return none
    | some (_, clip) => return some (.resizeClip clip.id edge (← operand "time"))
  | "move_clip" =>
    match clipId.bind t.editable?, r.id? "track_id" with
    | some (_, clip), some trackId =>
      if (t.receiver? trackId clip.kind).isNone then return none
      else return some (.moveClip clip.id trackId (← operand "start_time"))
    | _, _ => return none
  | "split_clip" =>
    match clipId.bind t.editable? with
    | none => return none
    | some (_, clip) =>
      let time ← operand "split_time"
      if !Timeline.cuts clip time then return none
      else return some (.splitClip clip.id time (← r.newClip "new_clip_id"))
  | "detach_audio_from_video" =>
    match (r.clip? "video_clip_id").bind t.detachable? with
    | none => return none
    | some video => return some (.detachAudio video.id (← r.newClip "audio_clip_id"))
  | "link_audio" =>
    return do some (.linkAudio (← r.clip? "video_clip_id") (← r.clip? "audio_clip_id"))
  | "unlink_audio" => return clipId.map .unlinkAudio
  | "set_clip_audio_muted" => return clipId.map fun id => .setClipAudioMuted id (r.any "muted")
  | "repair_links" => return some .repairLinks
  | "add_text_overlay" =>
    let start := (r.arguments.get? "start_time").getD (.real 0.0)
    let made (trackId : Option String) : Edit α ι :=
      .addOverlay (r.any "text") trackId start (r.any "overlay_id") r.further
    match r.any "track_id" with
    | .null => return some (made none)
    | .text s => return some (made (some s))
    | _ => return none
  | "update_text_overlay" => return (r.id? "overlay_id").map fun id => .updateOverlay id r.further
  | "remove_text_overlay" => return (r.id? "overlay_id").map .removeOverlay
  | "move_text_overlay_to_track" =>
    return do some (.moveOverlay (← r.id? "overlay_id") (← r.id? "track_id"))
  | "set_transition" =>
    match clipId.bind t.findClip with
    | none => return none
    | some clip =>
      let (kind, duration, side) ← r.transition.orRefuse
      return some (.setTransition clip.id kind duration side)
  | "remove_transition" =>
    match r.any "position" with
    | .null => return clipId.map fun id => .removeTransition id none
    | .text word =>
      let side : Option Side := Listed.ofWord? word
      return do some (.removeTransition (← clipId) (some (← side)))
    | _ => return none
  | "set_filter" => return clipId.map fun id => .setLook id r.further
  | "reset_filter" => return clipId.map .resetLook
  | _ => return none

/-- The timeline after what a resolved request asks for, and the names not yet issued. -/
def apply (r : Request α) (t : Timeline α ι) (ids : Ids) :
    Except Refusal (Timeline α ι × Ids) := do
  if !(Signature.ofName? r.name).any (·.fits r.arguments) then throw .illTyped
  match ← r.edit? t with
  | none => return (t, ids)
  | some e => e.apply t ids

end Request

end Montage
