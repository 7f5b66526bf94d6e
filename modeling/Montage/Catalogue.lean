/-
The kinds of record that the library deals in, by name.

`RecordKind.read` takes the data of a record of some kind and tells what is known of
the record: its fields, what follows from them, and how it takes changes. A record that
comes without an id gets the next one.
-/
import Montage.Render.Job
import Montage.Timeline.Basic

namespace Montage

inductive RecordKind where
  | crop
  | transform
  | clip
  | track
  | overlay
  | transition
  | look
  | timeline
  | asset
  | registration
  | exportSettings
  | renderRequest
  | plan
  | job
deriving BEq, DecidableEq, Repr, Inhabited

instance : Listed RecordKind where
  all := [.crop, .transform, .clip, .track, .overlay, .transition, .look, .timeline, .asset,
    .registration, .exportSettings, .renderRequest, .plan, .job]
  word
    | .crop => "CropSettings"
    | .transform => "TransformSettings"
    | .clip => "Clip"
    | .track => "Track"
    | .overlay => "TextOverlay"
    | .transition => "Transition"
    | .look => "VideoFilter"
    | .timeline => "Timeline"
    | .asset => "MediaAsset"
    | .registration => "MediaRegisterRequest"
    | .exportSettings => "ExportSettings"
    | .renderRequest => "RenderRequest"
    | .plan => "RenderPlan"
    | .job => "VideoRenderJob"

/-- What is known of a record. -/
structure Record (α : Type) where
  fields : Fields α
  derived : Fields α
  /-- Whether a time lies inside, for a record that has an inside; none if the time is no
  number. -/
  contains? : Option (Json α → Option Bool)
  /-- What fields hold that are set in turn. -/
  assign : Fields α → List (Except BadChange (Json α))

variable {α : Type} [Scalar α]

namespace Record

/-- A record that never changes. -/
def fixed (fields derived : Fields α) : Record α := ⟨fields, derived, none, Setter.fixed.each ()⟩

/-- A record whose fields take any value, some of them not among those that are shown. -/
def loose (fields derived : Fields α) (hidden : List String) : Record α :=
  ⟨fields, derived, none, (Setter.loose (fields.map (·.1) ++ hidden) (derived.map (·.1))).each ()⟩

def ofClip (c : Clip α) : Record α :=
  { fixed c.fields
      [("visible_duration", .real c.visibleDuration), ("end_time", .real c.finish)] with
    contains? := some c.containsData? }

def ofJob (j : Job α) : Record α :=
  ⟨j.fields, [("is_terminal", .bool j.isTerminal)], none, Setter.each Job.set j⟩

end Record

/-- The record of a kind that data describe, and the names not yet issued. -/
def RecordKind.read (kind : RecordKind) (ids : Ids) (j : Json α) : Report (Record α × Ids) :=
  let named {β : Type} (name : Fields α → Ids → Fields α × Ids) (read : Fields α → Report β)
      (known : β → Record α) : Report (Record α × Ids) :=
    (Naming.read name read ids j).map fun r => (known r.1, r.2)
  let plain {β : Type} (read : Fields α → Report β) (known : β → Record α) :
      Report (Record α × Ids) :=
    (Read.record read j).map fun b => (known b, ids)
  match kind with
  | .crop => plain Crop.read fun (c : Crop α) =>
    .fixed c.fields [("is_identity", .bool c.isIdentity)]
  | .transform => plain Transform.read fun (t : Transform α) => .fixed t.fields []
  | .clip => named Naming.fields Clip.read .ofClip
  | .track => named Naming.track Track.read fun (t : Track α) =>
    .fixed t.fields [("end_time", .real t.finish), ("is_visual", .bool t.isVisual)]
  | .overlay => named Naming.fields Overlay.read fun (o : Overlay α) =>
    .fixed o.fields [("visible_duration", .real o.duration), ("end_time", .real o.finish)]
  | .transition => named Naming.fields Transition.read fun (x : Transition α) =>
    .fixed x.fields []
  | .look => plain Look.read fun (l : Look α) =>
    .fixed l.fields [("is_neutral", .bool l.isNeutral)]
  | .timeline => named Naming.timeline Timeline.read fun (t : Timeline α) =>
    .fixed t.fields [("duration", .real t.duration)]
  | .asset => named Naming.fields (Asset.read ids.next (.tick 1)) fun (a : Asset α) =>
    .loose a.fields [("timeline_duration", .real a.timelineDuration)] ["created_at"]
  | .registration => plain Registration.read fun (r : Registration α) => .loose r.fields [] []
  | .exportSettings => plain ExportSettings.read fun s => .loose s.fields [] []
  | .renderRequest => plain (RenderRequest.read .notRecord) fun r => .loose r.fields [] []
  | .plan => plain Plan.read fun (p : Plan α) => .loose p.fields [] []
  | .job => named Naming.fields (Job.read ids.next 0) .ofJob

end Montage
