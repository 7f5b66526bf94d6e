/-
The edits as data.

`Edit.apply` runs an edit on a timeline: it gives the new timeline and the rest
of the names, or says why the edit is refused.
-/
import Montage.Edit.Tracks
import Montage.Edit.Clips
import Montage.Edit.AudioLinks
import Montage.Edit.Overlays
import Montage.Edit.Effects

namespace Montage

/-- An edit of a timeline. Data in an edit is checked when the edit is run. -/
inductive Edit (α : Type) (ι : Type := String) where
  | setProjectName (name : Json α)
  | setAspectRatio (ratio : Json α)
  | addTrack (kind : TrackKind) (name trackId : Option String)
  | removeTrack (trackId : String)
  | toggleTrackMute (trackId : String)
  | toggleTrackLock (trackId : String)
  | setTrackGain (trackId : String) (gain : α)
  | addClip (trackId : String) (asset : Asset α) (start : α) (clipId : Option String)
  | removeClip (clipId : ι)
  | updateClip (clipId : ι) (changes : Fields α)
  | trimClip (clipId : ι) (trimIn trimOut : α)
  | resizeClip (clipId : ι) (edge : Edge) (time : α)
  | moveClip (clipId : ι) (trackId : String) (start : α)
  | splitClip (clipId : ι) (time : α) (newId : Option ι)
  | detachAudio (videoId : ι) (audioId : Option ι)
  | linkAudio (videoId audioId : ι)
  | unlinkAudio (clipId : ι)
  | setClipAudioMuted (clipId : ι) (muted : Json α)
  | repairLinks
  | addOverlay (text : Json α) (trackId : Option String) (start overlayId : Json α)
      (style : Fields α)
  | updateOverlay (overlayId : String) (changes : Fields α)
  | removeOverlay (overlayId : String)
  | moveOverlay (overlayId trackId : String)
  | setTransition (clipId : ι) (kind : TransitionKind) (duration : α) (side : Side)
  | removeTransition (clipId : ι) (side : Option Side)
  | setLook (clipId : ι) (params : Fields α)
  | resetLook (clipId : ι)

variable {α ι : Type} [Scalar α] [BEq ι] [Label ι α]

/-- The ids that an edit of a timeline puts into a set or looks up in one. -/
def Edit.keys (e : Edit α ι) (t : Timeline α ι) : List ι :=
  let clips := t.allClips.map (·.id)
  match e with
  | .removeTrack trackId =>
    match t.findTrack trackId with
    | some track =>
      if track.clips.isEmpty then [] else track.clips.map (·.id) ++ t.transitions.map (·.clipId)
    | none => []
  | .removeClip clipId =>
    if (t.editable? clipId).isSome then clipId :: t.transitions.map (·.clipId) else []
  | .detachAudio videoId _ => if (t.detachable? videoId).any Timeline.isDetached then clips else []
  | .linkAudio videoId audioId => if t.areLinkable videoId audioId then clips else []
  | .unlinkAudio clipId => if (t.findClip clipId).isSome then clips else []
  | .repairLinks => clips
  | _ => []

/-- The timeline after an edit whose ids can be keys, and the names not yet issued. -/
def Edit.run (e : Edit α ι) (t : Timeline α ι) (ids : Ids) :
    Except Refusal (Timeline α ι × Ids) :=
  match e with
  | .setProjectName name => .ok (t.setProjectName name, ids)
  | .setAspectRatio ratio => (t.setAspectRatio ratio).orRefuse.map (·, ids)
  | .addTrack kind name trackId => .ok (t.addTrack kind name trackId ids)
  | .removeTrack trackId => .ok (t.removeTrack trackId, ids)
  | .toggleTrackMute trackId => .ok (t.toggleTrackMute trackId, ids)
  | .toggleTrackLock trackId => .ok (t.toggleTrackLock trackId, ids)
  | .setTrackGain trackId gain => .ok (t.setTrackGain trackId gain, ids)
  | .addClip trackId asset start clipId => .ok (t.addClip trackId asset start clipId ids)
  | .removeClip clipId => .ok (t.removeClip clipId, ids)
  | .updateClip clipId changes => (t.updateClip clipId changes).map (·, ids)
  | .trimClip clipId trimIn trimOut => (t.trimClip clipId trimIn trimOut).map (·, ids)
  | .resizeClip clipId edge time => (t.resizeClip clipId edge time).map (·, ids)
  | .moveClip clipId trackId start => .ok (t.moveClip clipId trackId start, ids)
  | .splitClip clipId time newId => .ok (t.splitClip clipId time newId ids)
  | .detachAudio videoId audioId => t.detachAudio videoId audioId ids
  | .linkAudio videoId audioId => .ok (t.linkAudio videoId audioId, ids)
  | .unlinkAudio clipId => .ok (t.unlinkAudio clipId, ids)
  | .setClipAudioMuted clipId muted => (t.setClipAudioMuted clipId muted).map (·, ids)
  | .repairLinks => .ok (t.repairLinks, ids)
  | .addOverlay text trackId start overlayId style =>
    t.addOverlay text trackId start overlayId style ids
  | .updateOverlay overlayId changes => (t.updateOverlay overlayId changes).map (·, ids)
  | .removeOverlay overlayId => .ok (t.removeOverlay overlayId, ids)
  | .moveOverlay overlayId trackId => .ok (t.moveOverlay overlayId trackId, ids)
  | .setTransition clipId kind duration side =>
    .ok (t.setTransition clipId kind duration side ids)
  | .removeTransition clipId side => .ok (t.removeTransition clipId side, ids)
  | .setLook clipId params => (t.setLook clipId params).map (·, ids)
  | .resetLook clipId => .ok (t.resetLook clipId, ids)

/-- The timeline after an edit, and the names not yet issued. -/
def Edit.apply (e : Edit α ι) (t : Timeline α ι) (ids : Ids) :
    Except Refusal (Timeline α ι × Ids) :=
  if (e.keys t).all (Label.isKey α) then e.run t ids else .error .illTyped

end Montage
