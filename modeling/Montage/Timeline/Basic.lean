/-
Timelines: one state of an edit.

A timeline is a value. It is read from data and written back as data; things
that come without an id get the next names in the order they are written.

A number that stands for nothing equals itself where it is carried over, and
differs where an edit sets it anew; a timeline counts the edits that did.
-/
import Montage.Timeline.Track
import Montage.Timeline.Overlay
import Montage.Timeline.Effect

namespace Montage

/-- The shape of the frame. -/
inductive AspectRatio where
  | wide
  | tall
  | square
  | classic
  | ultrawide
deriving BEq, DecidableEq, Repr, Inhabited

instance : Listed AspectRatio where
  all := [.wide, .tall, .square, .classic, .ultrawide]
  word
    | .wide => "16:9"
    | .tall => "9:16"
    | .square => "1:1"
    | .classic => "4:3"
    | .ultrawide => "21:9"

def AspectRatio.word (r : AspectRatio) : String := Listed.word r

structure Timeline (α : Type) (ι : Type := String) where
  /-- The name as it was last given. It is a text where a timeline is read; an edit may
  set it to anything. -/
  projectName : Json α
  aspectRatio : AspectRatio
  tracks : List (Track α ι)
  overlays : List (Overlay α)
  transitions : List (Transition α ι)
  looks : List (Look α ι)
  /-- How many edits have set a number that stands for nothing. -/
  renewals : Nat := 0
deriving Repr

namespace Timeline

variable {α ι : Type} [Scalar α] [BEq ι]

instance : BEq (Timeline α ι) where
  beq t u :=
    t.projectName == u.projectName && t.aspectRatio == u.aspectRatio && t.tracks == u.tracks &&
      t.overlays == u.overlays && t.transitions == u.transitions && t.looks == u.looks &&
      t.renewals == u.renewals

/-- A timeline with nothing on it. -/
def empty (name : String) (ratio : AspectRatio) : Timeline α ι :=
  { projectName := .text name, aspectRatio := ratio, tracks := [], overlays := [], transitions := []
    looks := [] }

/-- The timeline after an edit that set some numbers; `undefined` says whether one of
them stands for nothing. -/
def renewed (t : Timeline α ι) (undefined : Bool) : Timeline α ι :=
  if undefined then { t with renewals := t.renewals + 1 } else t

/-- The end of the last clip or overlay. -/
def duration (t : Timeline α ι) : α :=
  Scalar.larger (Scalar.greatest (t.tracks.map Track.finish))
    (Scalar.greatest (t.overlays.map Overlay.finish))

/-- The clips of all tracks, track by track. -/
def allClips (t : Timeline α ι) : List (Clip α ι) := t.tracks.flatMap (·.clips)

def findTrack (t : Timeline α ι) (id : String) : Option (Track α ι) := t.tracks.find? (·.id == id)

def findClip (t : Timeline α ι) (id : ι) : Option (Clip α ι) := t.allClips.find? (·.id == id)

/-- The first track that holds a clip with an id. -/
def trackOf (t : Timeline α ι) (id : ι) : Option (Track α ι) :=
  t.tracks.find? fun track => (track.findClip id).isSome

/-- The tracks of some kinds, in order. -/
def tracksOfKind (t : Timeline α ι) (kinds : List TrackKind) : List (Track α ι) :=
  t.tracks.filter fun track => kinds.contains track.kind

def findOverlay (t : Timeline α ι) (id : String) : Option (Overlay α) :=
  t.overlays.find? (·.id == id)

/-- The look of a clip. -/
def lookFor (t : Timeline α ι) (clipId : ι) : Option (Look α ι) :=
  t.looks.find? (·.clipId == clipId)

/-- The transitions of a clip, in order. -/
def transitionsFor (t : Timeline α ι) (clipId : ι) : List (Transition α ι) :=
  t.transitions.filter (·.clipId == clipId)

/-- A timeline read from its fields. -/
def read [Label ι α] (fs : Fields α) : Report (Timeline α ι) :=
  (fun projectName aspectRatio tracks overlays transitions looks =>
      { projectName, aspectRatio, tracks, overlays, transitions, looks }) <$>
    Json.text <$> fs.withDefault "project_name" "Untitled" Read.text
    <*> fs.withDefault "aspect_ratio" .wide Read.choice
    <*> fs.withDefault "tracks" [] (Read.list .notTuple (Read.record Track.read))
    <*> fs.withDefault "text_overlays" [] (Read.list .notTuple (Read.record Overlay.read))
    <*> fs.withDefault "transitions" [] (Read.list .notTuple (Read.record Transition.read))
    <*> fs.withDefault "filters" [] (Read.list .notTuple (Read.record Look.read))

/-- The fields of a timeline. -/
def fields [Label ι α] (t : Timeline α ι) : Fields α :=
  [("project_name", t.projectName), ("aspect_ratio", .text t.aspectRatio.word),
    ("tracks", .list (t.tracks.map fun track => .object track.fields)),
    ("text_overlays", .list (t.overlays.map fun o => .object o.fields)),
    ("transitions", .list (t.transitions.map fun x => .object x.fields)),
    ("filters", .list (t.looks.map fun l => .object l.fields))]

/-- Whether two timelines are equal. -/
def same (t u : Timeline α ι) : Bool := t == u

/-- The fields in which a timeline differs from an earlier one. -/
def changedFields [Label ι α] (earlier later : Timeline α ι) : Fields α :=
  let part (name : String) (same : Bool) : Fields α :=
    if same then [] else (later.fields.get? name).toList.map ((name, ·))
  part "project_name" (earlier.projectName == later.projectName) ++
    part "aspect_ratio" (earlier.aspectRatio == later.aspectRatio) ++
    part "tracks" (earlier.tracks == later.tracks && earlier.renewals == later.renewals) ++
    part "text_overlays" (earlier.overlays == later.overlays) ++
    part "transitions" (earlier.transitions == later.transitions) ++
    part "filters" (earlier.looks == later.looks)

end Timeline

/-! Names for the parts of unread data. -/
namespace Naming

variable {α : Type}

/-- Fields with an id, the next one if there is none. -/
def fields (fs : Fields α) (ids : Ids) : Fields α × Ids :=
  if fs.has "id" then (fs, ids) else (fs.put "id" (.text ids.next), ids.rest)

/-- Each item named in turn. -/
def items (name : Fields α → Ids → Fields α × Ids) : List (Json α) → Ids → List (Json α) × Ids
  | [], ids => ([], ids)
  | .object fs :: rest, ids =>
    let (fs, ids) := name fs ids
    let (rest, ids) := items name rest ids
    (.object fs :: rest, ids)
  | j :: rest, ids =>
    let (rest, ids) := items name rest ids
    (j :: rest, ids)

/-- The items of one field named in turn. -/
def inside (field : String) (name : Fields α → Ids → Fields α × Ids) (fs : Fields α) (ids : Ids) :
    Fields α × Ids :=
  match fs.get? field with
  | some (.list js) =>
    let (js, ids) := items name js ids
    (fs.put field (.list js), ids)
  | _ => (fs, ids)

/-- A track and then its clips. -/
def track (fs : Fields α) (ids : Ids) : Fields α × Ids :=
  let (fs, ids) := fields fs ids
  inside "clips" fields fs ids

/-- The tracks, overlays and transitions of a timeline. -/
def timeline (fs : Fields α) (ids : Ids) : Fields α × Ids :=
  let (fs, ids) := inside "tracks" track fs ids
  let (fs, ids) := inside "text_overlays" fields fs ids
  inside "transitions" fields fs ids

/-- A record read with its names given, and the names not yet issued. -/
def read {β : Type} (name : Fields α → Ids → Fields α × Ids) (check : Fields α → Report β)
    (ids : Ids) : Json α → Report (β × Ids) :=
  Read.record fun fs =>
    let (fs, ids) := name fs ids
    (check fs).map (·, ids)

/-- Records read in turn, up to the first one that is invalid. -/
def readAll {β : Type} (name : Fields α → Ids → Fields α × Ids) (check : Fields α → Report β) :
    List (Json α) → Ids → Report (List β × Ids)
  | [], ids => .valid ([], ids)
  | j :: rest, ids =>
    (read name check ids j).andThen fun (b, ids) =>
      (readAll name check rest ids).map fun (bs, ids) => (b :: bs, ids)

end Naming

end Montage
