/-
Edits of audio links: the sound of a video clip on a track of its own.

A video clip names its detached audio clip and is named by it. Either side may
go stale when clips are taken from elsewhere; `repairLinks` clears what no longer
points back.
-/
import Montage.Edit.Tracks

namespace Montage.Timeline

variable {α ι : Type} [Scalar α] [BEq ι]

/-- Whether a clip names a detached audio clip. -/
def isDetached [Label ι α] (video : Clip α ι) : Bool := video.detachedAudio.any fun id => !Label.isVoid α id

/-- The last clip with an id. -/
def lastClip? (clips : List (Clip α ι)) (id : ι) : Option (Clip α ι) :=
  clips.reverse.find? (·.id == id)

/-- Whether a link leads to a clip that does not point back. -/
def isStale [Label ι α] (clips : List (Clip α ι)) (back : Clip α ι → Option ι) (owner : ι)
    (link : Option ι) : Bool :=
  match link with
  | none => false
  | some id =>
    !Label.isVoid α id &&
      match lastClip? clips id with
      | none => true
      | some other => back other != some owner

/-- The timeline without the links that do not point back. -/
def repairLinks [Label ι α] (t : Timeline α ι) : Timeline α ι :=
  let clips := t.allClips
  t.mapClips fun c =>
    { c with
      detachedAudio :=
        if isStale clips (·.linkedVideo) c.id c.detachedAudio then none else c.detachedAudio
      linkedVideo :=
        if isStale clips (·.detachedAudio) c.id c.linkedVideo then none else c.linkedVideo }

/-- The first unlocked audio track, or a new one. -/
def audioTrack (t : Timeline α ι) (ids : Ids) : Timeline α ι × Ids × Option (Track α ι) :=
  match (t.tracksOfKind [.audio]).find? (!·.locked) with
  | some track => (t, ids, some track)
  | none =>
    let (t, ids) := t.addTrack .audio none none ids
    (t, ids, t.tracks.getLast?)

/-- The audio clip that is detached from a video clip. -/
def detachedFrom (video : Clip α ι) (id : ι) (trackId : String) : Clip α ι :=
  { id, mediaId := video.mediaId, trackId, kind := .audio, name := video.name ++ " (audio)"
    start := video.start, rawDuration := video.rawDuration, trimIn := video.trimIn
    trimOut := video.trimOut, crop := none, transform := none, audioMuted := false
    detachedAudio := none, linkedVideo := some video.id }

/-- The unlocked video clip of an id whose sound is not a clip of its own yet. -/
def detachable? [Label ι α] (t : Timeline α ι) (videoId : ι) : Option (Clip α ι) :=
  match t.editable? videoId with
  | none => none
  | some (_, video) =>
    if video.kind ≠ .video then none
    else if isDetached video && (video.detachedAudio.bind t.findClip).isSome then none
    else some video

/-- The timeline with the sound of a video clip as a clip of its own, unless it
has one already. -/
def detachAudio [Label ι α] (t : Timeline α ι) (videoId : ι) (audioId : Option ι) (ids : Ids) :
    Except Refusal (Timeline α ι × Ids) :=
  match t.detachable? videoId with
  | none => .ok (t, ids)
  | some video => do
    let t := if isDetached video then t.repairLinks else t
    match t.audioTrack ids with
    | (t, ids, none) => .ok (t, ids)
    | (t, ids, some track) =>
      let (id, ids) := chooseLabel α ids audioId
      let audio ← (detachedFrom video id track.id).recheck.orRefuse
      let placed := t.replaceTrack (track.settle (track.clips ++ [audio]))
      let linked := placed.mapClips fun c =>
        if c.id == video.id then
          { c with audioMuted := false, detachedAudio := some audio.id }
        else c
      return (linked, ids)

/-- The timeline without the links of a clip and of those it names. -/
def unlinkAudio (t : Timeline α ι) (clipId : ι) : Timeline α ι :=
  match t.findClip clipId with
  | none => t
  | some clip =>
    let pair := clipId :: (clip.detachedAudio.toList ++ clip.linkedVideo.toList)
    t.mapClips fun c =>
      if pair.contains c.id then { c with detachedAudio := none, linkedVideo := none } else c

/-- Whether two ids are those of a video and an audio clip. -/
def areLinkable (t : Timeline α ι) (videoId audioId : ι) : Bool :=
  (t.findClip videoId).any (·.kind == .video) && (t.findClip audioId).any (·.kind == .audio)

/-- The timeline with a video and an audio clip linked, and with no one else. -/
def linkAudio (t : Timeline α ι) (videoId audioId : ι) : Timeline α ι :=
  if t.areLinkable videoId audioId then
    ((t.unlinkAudio videoId).unlinkAudio audioId).mapClips fun c =>
      if c.id == videoId then { c with detachedAudio := some audioId, audioMuted := false }
      else if c.id == audioId then { c with linkedVideo := some videoId }
      else c
  else t

end Montage.Timeline
