/-
Edits of the project and of its tracks.
-/
import Montage.Edit.Basic

namespace Montage.Timeline

variable {α ι : Type} [Scalar α] [BEq ι]

/-- The timeline with another name, which is not looked at. -/
def setProjectName (t : Timeline α ι) (name : Json α) : Timeline α ι := { t with projectName := name }

/-- The timeline in another shape, checked as a whole. -/
def setAspectRatio [Label ι α] (t : Timeline α ι) (ratio : Json α) : Report (Timeline α ι) :=
  (read (t.fields.put "aspect_ratio" ratio)).map fun u => { u with renewals := t.renewals }

/-- The name of the next track of a kind. -/
def nextTrackName (t : Timeline α ι) (kind : TrackKind) : String :=
  kind.title ++ " " ++ toString ((t.tracksOfKind [kind]).length + 1)

/-- The timeline with an empty track at the end. -/
def addTrack (t : Timeline α ι) (kind : TrackKind) (name trackId : Option String) (ids : Ids) :
    Timeline α ι × Ids :=
  let (id, ids) := ids.choose trackId
  let name := match name with
    | some n => if n.isEmpty then t.nextTrackName kind else n
    | none => t.nextTrackName kind
  ({ t with tracks := t.tracks ++ [⟨id, name, kind, [], false, false, 1.0⟩] }, ids)

/-- The timeline without a track and all that stands on it. -/
def removeTrack (t : Timeline α ι) (trackId : String) : Timeline α ι :=
  match t.findTrack trackId with
  | none => t
  | some track =>
    let kept : Timeline α ι := { t with
      tracks := t.tracks.filter (·.id != trackId)
      overlays := t.overlays.filter (·.trackId != trackId) }
    kept.dropRecords (track.clips.map (·.id))

def toggleTrackMute (t : Timeline α ι) (trackId : String) : Timeline α ι :=
  match t.findTrack trackId with
  | none => t
  | some track => t.replaceTrack { track with muted := !track.muted }

def toggleTrackLock (t : Timeline α ι) (trackId : String) : Timeline α ι :=
  match t.findTrack trackId with
  | none => t
  | some track => t.replaceTrack { track with locked := !track.locked }

def setTrackGain (t : Timeline α ι) (trackId : String) (gain : α) : Timeline α ι :=
  match t.findTrack trackId with
  | none => t
  | some track => t.replaceTrack { track with gain := Scalar.clamp gain 0.0 1.0 }

end Montage.Timeline
