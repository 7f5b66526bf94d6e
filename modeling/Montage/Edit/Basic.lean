/-
What the edits of a timeline share.

An edit takes a timeline and gives a new one. An edit that names something that
does not exist, or a clip of a locked track, leaves the timeline as it is; one
whose arguments cannot stand is refused.
-/
import Montage.Json.Shown
import Montage.Placement

namespace Montage

/-- Why an edit is refused. -/
inductive Refusal where
  /-- The edited value would not be valid. -/
  | invalid (problems : List Problem)
  /-- Fields of a clip that no edit may set. -/
  | clipFields (names : List String)
  /-- Fields of an overlay that no edit may set. -/
  | overlayFields (names : List String)
  /-- An argument of the wrong sort. -/
  | illTyped
  /-- A whole number too large to calculate with. -/
  | tooLarge
  /-- No such kind of track. -/
  | unknownKind (word : String)
  /-- No such asset. -/
  | unknownMedia (id : String)
  /-- No such edit. -/
  | unknownEdit (name : String)
  /-- An argument by which something is looked up is not there. -/
  | noArgument (name : String)
  /-- A bag that is a list holds something that is no pair: at which place, and how long it is. -/
  | noPair (place length : Nat)
deriving BEq, Repr

/-- What a refusal says. -/
def Refusal.message : Refusal → String
  | .invalid ps => problemsText ps
  | .clipFields names => "clip fields not editable: " ++ Quoted.list names
  | .overlayFields names => "text overlay fields not editable: " ++ Quoted.list names
  | .illTyped => ""
  | .tooLarge => ""
  | .unknownKind word => word
  | .unknownMedia id => id
  | .unknownEdit name => name
  | .noArgument name => name
  | .noPair place length =>
    "dictionary update sequence element #" ++ toString place ++ " has length " ++ toString length ++
      "; 2 is required"

/-- A valid value, or the refusal of an invalid one. -/
def Report.orRefuse {β : Type} : Report β → Except Refusal β
  | .valid b => .ok b
  | .invalid ps => .error (.invalid ps)

namespace Timeline

variable {α ι : Type} [Scalar α] [BEq ι]

/-- The timeline with a track in the place of those of its id. -/
def replaceTrack (t : Timeline α ι) (track : Track α ι) : Timeline α ι :=
  { t with tracks := t.tracks.map fun old => if old.id == track.id then track else old }

/-- The timeline with every clip changed. -/
def mapClips (t : Timeline α ι) (f : Clip α ι → Clip α ι) : Timeline α ι :=
  { t with tracks := t.tracks.map fun track => { track with clips := track.clips.map f } }

/-- The clip with an id and its track, unless that is locked. -/
def editable? (t : Timeline α ι) (clipId : ι) : Option (Track α ι × Clip α ι) :=
  match t.trackOf clipId with
  | some track => if track.locked then none else (track.findClip clipId).map ((track, ·))
  | none => none

end Timeline

/-- A given id, or the next name if none is given or one that holds nothing. -/
def chooseLabel (α : Type) {ι : Type} [Scalar α] [Label ι α] (ids : Ids) (given : Option ι) :
    ι × Ids :=
  match given.filter fun id => !Label.isVoid α id with
  | some id => (id, ids)
  | none => (Label.ofText α ids.next, ids.rest)

/-- The track with other clips, in order and pushed apart. -/
def Track.settle {α ι : Type} [Scalar α] (track : Track α ι) (clips : List (Clip α ι)) : Track α ι :=
  { track with clips := resolve clips }

/-- The clips with one in the place of those of its id. -/
def replaceClip {α ι : Type} [BEq ι] (clips : List (Clip α ι)) (clip : Clip α ι) : List (Clip α ι) :=
  clips.map fun c => if c.id == clip.id then clip else c

/-- Whether an optional id is among some ids. -/
def namesOne {ι : Type} [BEq ι] (ids : List ι) : Option ι → Bool
  | some id => ids.contains id
  | none => false

/-- The clip without links to removed clips. A clip that loses its detached audio
stays silent. -/
def Clip.unlink {α ι : Type} [BEq ι] (removed : List ι) (muteOnLoss : Bool) (c : Clip α ι) : Clip α ι :=
  let lost := namesOne removed c.detachedAudio
  { c with
    detachedAudio := if lost then none else c.detachedAudio
    audioMuted := c.audioMuted || (lost && muteOnLoss)
    linkedVideo := if namesOne removed c.linkedVideo then none else c.linkedVideo }

/-- The timeline without the looks, transitions and links of removed clips. -/
def Timeline.dropRecords {α ι : Type} [BEq ι] (t : Timeline α ι) (removed : List ι) :
    Timeline α ι :=
  if removed.isEmpty then t
  else
    let kept : Timeline α ι := { t with
      looks := t.looks.filter fun l => !removed.contains l.clipId
      transitions := t.transitions.filter fun x => !removed.contains x.clipId }
    kept.mapClips (Clip.unlink removed true)

end Montage
