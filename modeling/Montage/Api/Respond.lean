/-
Requests carried out on the studio.

`Studio.respond` answers a request: it finds the endpoint, checks the query and
the body, and does what is asked for. A request that fails gives back the names
it has drawn.
-/
import Montage.Api.Body
import Montage.Api.Endpoint
import Montage.Api.Response

namespace Montage

/-- A request to the studio. -/
structure ApiRequest (α : Type) where
  method : String
  target : Target
  payload : Payload α

variable {α : Type} [Scalar α]

namespace Studio

/-- What a request leads to: the studio after it, and its answer. -/
abbrev Turn (α : Type) := Studio α × Response α

/-- A project as it stands. -/
def showProject (s : Studio α) (id : String) : Turn α :=
  match s.project? id with
  | some p => (s, .ok p.shown)
  | none => (s, .notFound "timeline" id)

/-- A project after some edits, each of them a step of its history. The first one
that is refused ends the request. -/
def editAll (projectId : String) : List (Edit α) → Studio α → Turn α
  | [], s => s.showProject projectId
  | e :: rest, s =>
    match s.project? projectId with
    | none => (s, .notFound "timeline" projectId)
    | some p =>
      match s.edit p e with
      | .error r => (s, .refused r)
      | .ok s => editAll projectId rest s

/-- A turn with the checked body of a request. -/
def withBody {β : Type} (s : Studio α) (payload : Payload α) (read : Fields α → Report β)
    (go : β → Turn α) : Turn α :=
  match payload.read read with
  | .ok body => go body
  | .error response => (s, response)

/-- A turn with a project that must be there. -/
def withProject (s : Studio α) (id : String) (go : Project α → Turn α) : Turn α :=
  match s.project? id with
  | some p => go p
  | none => (s, .notFound "timeline" id)

/-- A turn with a setting of the query that may be left out. -/
def withSetting {β : Type} [Listed β] (s : Studio α) (target : Target) (name : String)
    (go : Option β → Turn α) : Turn α :=
  match target.setting? name with
  | none => go none
  | some word =>
    match Listed.ofWord? word with
    | some value => go (some value)
    | none => (s, .rejected [⟨[.field "query", .field name], .notListed⟩])

/-- The edits that a change of a track asks for. -/
def trackEdits (track : Track α) (patch : TrackPatch α) : List (Edit α) :=
  (if patch.muted.any (· != track.muted) then [.toggleTrackMute track.id] else []) ++
    (if patch.locked.any (· != track.locked) then [.toggleTrackLock track.id] else []) ++
    patch.gain.toList.map (.setTrackGain track.id)

/-- The edits that a change of an overlay asks for. -/
def overlayEdits (id : String) (patch : OverlayPatch α) : List (Edit α) :=
  (if patch.changes.isEmpty then [] else [.updateOverlay id patch.changes]) ++
    ((nonempty? patch.trackId).toList.map fun trackId => .moveOverlay id trackId)

/-- The start of a clip that is dragged onto a track: it snaps if it may, and goes
to a free place if it still meets another clip. -/
def dropStart (target : Track α) (clip : Clip α) (d : Drag α) : α :=
  let length := clip.visibleDuration
  let start :=
    if d.snaps then snap target.clips d.start length (some clip.id) snapThreshold else d.start
  if collides target.clips start length (some clip.id) then
    freePosition target.clips start length (some clip.id)
  else start

/-- A clip dragged to a place. -/
def dragClip (s : Studio α) (projectId clipId : String) (d : Drag α) : Turn α :=
  s.withProject projectId fun p =>
    match p.current.findClip clipId, p.current.findTrack d.trackId with
    | none, _ => (s, .notFound "clip" clipId)
    | _, none => (s, .notFound "track" d.trackId)
    | some clip, some target =>
      editAll projectId [.moveClip clipId d.trackId (dropStart target clip d)] s

/-- Things in their order, if they have one. -/
def listing {β : Type} (s : Studio α) (found : Option (List β)) (shown : β → Json α) : Turn α :=
  match found with
  | some bs => (s, .ok (.list (bs.map shown)))
  | none => (s, .breakdown .unordered)

/-- A job as it stands. -/
def showJob (s : Studio α) (id : String) : Turn α :=
  match s.store.get? id with
  | some job => (s, .ok job.shown)
  | none => (s, .notFound "render_job" id)

/-- A job that is run and then shown. -/
def runAndShow (s : Studio α) (runner : Runner α) (id : String) : Turn α :=
  match s.store.get? id with
  | none => (s, .notFound "render_job" id)
  | some _ =>
    match s.runJob runner id with
    | (s, .ok ()) => s.showJob id
    | (s, .error e) => (s, .breakdown (.run e))

/-- A render that is carried out. -/
def renderNow (s : Studio α) (runner : Runner α) (r : RenderRequest) : Turn α :=
  match s.render runner r with
  | .error e => (s, .unrendered e)
  | .ok (s, .valid result) => (s, .ok (.object result.fields))
  | .ok (s, .invalid problems) => (s, .breakdown (.run (.badPlan problems)))

/-- What an endpoint does. -/
def serve (s : Studio α) (runner : Runner α) (target : Target) (payload : Payload α) :
    Endpoint → Turn α
  | .registerAsset => s.withBody payload Registration.read fun r =>
    let (s, asset) := s.register r
    (s, .ok (.object asset.fields))
  | .listAssets => s.withSetting target "kind" fun kind =>
    s.listing (s.library.list? kind) fun a => .object a.fields
  | .showAsset id =>
    match s.library.get? id with
    | some asset => (s, .ok (.object asset.fields))
    | none => (s, .notFound "media" id)
  | .createProject => s.withBody payload NewProject.read fun b =>
    let (s, id) := s.createProject (Timeline.empty b.name b.ratio)
    s.showProject id
  | .listProjects => (s, .ok (.list (s.projects.map Project.shown)))
  | .showProject p => s.showProject p
  | .patchProject p => s.withBody payload ProjectPatch.read fun b =>
    let name := b.name.toList.map fun name => Edit.setProjectName (.text name)
    let ratio := b.ratio.toList.map fun ratio => Edit.setAspectRatio (.text ratio.word)
    editAll p (name ++ ratio) s
  | .undo p => s.withProject p fun project => (s.undo project).showProject p
  | .redo p => s.withProject p fun project => (s.redo project).showProject p
  | .addTrack p => s.withBody payload NewTrack.read fun b =>
    editAll p [.addTrack b.kind b.name none] s
  | .patchTrack p track => s.withBody payload TrackPatch.read fun b =>
    s.withProject p fun project =>
      match project.current.findTrack track with
      | none => (s, .notFound "track" track)
      | some found => editAll p (trackEdits found b) s
  | .removeTrack p track => editAll p [.removeTrack track] s
  | .addClip p => s.withBody payload NewClip.read fun b =>
    match s.library.get? b.mediaId with
    | none => (s, .notFound "media" b.mediaId)
    | some asset => editAll p [.addClip b.trackId asset b.start none] s
  | .patchClip p clip => s.withBody payload Body.clipChanges fun changes =>
    editAll p [.updateClip clip changes] s
  | .removeClip p clip => editAll p [.removeClip clip] s
  | .moveClip p clip => s.withBody payload Drag.read fun d => s.dragClip p clip d
  | .splitClip p clip => s.withBody payload Body.cut fun time =>
    editAll p [.splitClip clip time none] s
  | .trimClip p clip => s.withBody payload Body.trims fun (trimIn, trimOut) =>
    editAll p [.trimClip clip trimIn trimOut] s
  | .resizeClip p clip => s.withBody payload Body.resize fun (edge, time) =>
    editAll p [.resizeClip clip edge time] s
  | .detachAudio p clip => editAll p [.detachAudio clip none] s
  | .linkAudio p clip => s.withBody payload Body.link fun audio =>
    editAll p [.linkAudio clip audio] s
  | .unlinkAudio p clip => editAll p [.unlinkAudio clip] s
  | .setTransition p clip => s.withBody payload Body.transition fun (kind, duration, side) =>
    editAll p [.setTransition clip kind duration side] s
  | .removeTransition p clip => s.withSetting target "position" fun side =>
    editAll p [.removeTransition clip side] s
  | .setLook p clip => s.withBody payload Body.look fun params =>
    editAll p [.setLook clip params] s
  | .resetLook p clip => editAll p [.resetLook clip] s
  | .addOverlay p => s.withBody payload NewOverlay.read fun b =>
    editAll p [.addOverlay (.text b.text) b.trackId (.real b.start) .null b.style] s
  | .patchOverlay p overlay => s.withBody payload OverlayPatch.read fun b =>
    s.withProject p fun project =>
      match project.current.findOverlay overlay with
      | none => (s, .notFound "text_overlay" overlay)
      | some _ => editAll p (overlayEdits overlay b) s
  | .removeOverlay p overlay => editAll p [.removeOverlay overlay] s
  | .render => s.withBody payload (RenderRequest.read .notBody) fun r => s.renderNow runner r
  | .dryRun => s.withBody payload (RenderRequest.read .notBody) fun r =>
    match s.dryRun r with
    | .error e => (s, .unrendered e)
    | .ok result => (s, .ok (.object result.fields))
  | .createJob => s.withBody payload (RenderRequest.read .notBody) fun r =>
    match s.createJob r with
    | .error e => (s, .unrendered e)
    | .ok (s, job) => (s, .ok job.shown)
  | .listJobs =>
    s.listing (s.store.list? (target.setting? "project_id") (target.setting? "status")) Job.shown
  | .showJob id => s.showJob id
  | .runJob id => s.runAndShow runner id
  | .cancelJob id => (s.cancelJob id).showJob id

/-- The studio after a request, and the answer. -/
def respond (s : Studio α) (runner : Runner α) (r : ApiRequest α) : Turn α :=
  match Endpoint.find r.method r.target.path with
  | .error .noPath => (s, .failed Envelope.notThere (.text "Not Found"))
  | .error .noMethod => (s, .failed 405 (.text "Method Not Allowed"))
  | .ok endpoint =>
    let (after, response) := s.serve runner r.target r.payload endpoint
    let response := response.written
    if response.isFailure then ({ after with ids := s.ids }, response) else (after, response)

end Studio

end Montage
