/-
The endpoints: what can be asked for, and under which paths and methods.
-/
import Montage.Api.Target

namespace Montage

inductive Method where
  | get
  | post
  | put
  | patch
  | delete
deriving BEq, DecidableEq, Repr, Inhabited

/-- The method of a name. -/
def Method.ofName? : String → Option Method
  | "GET" => some .get
  | "POST" => some .post
  | "PUT" => some .put
  | "PATCH" => some .patch
  | "DELETE" => some .delete
  | _ => none

inductive Endpoint where
  | registerAsset
  | listAssets
  | showAsset (id : String)
  | createProject
  | listProjects
  | showProject (project : String)
  | patchProject (project : String)
  | undo (project : String)
  | redo (project : String)
  | addTrack (project : String)
  | patchTrack (project track : String)
  | removeTrack (project track : String)
  | addClip (project : String)
  | patchClip (project clip : String)
  | removeClip (project clip : String)
  | moveClip (project clip : String)
  | splitClip (project clip : String)
  | trimClip (project clip : String)
  | resizeClip (project clip : String)
  | detachAudio (project clip : String)
  | linkAudio (project clip : String)
  | unlinkAudio (project clip : String)
  | setTransition (project clip : String)
  | removeTransition (project clip : String)
  | setLook (project clip : String)
  | resetLook (project clip : String)
  | addOverlay (project : String)
  | patchOverlay (project overlay : String)
  | removeOverlay (project overlay : String)
  | render
  | dryRun
  | createJob
  | listJobs
  | showJob (id : String)
  | runJob (id : String)
  | cancelJob (id : String)
deriving BEq, DecidableEq, Repr, Inhabited

namespace Endpoint

/-- The endpoints of a clip, by the names after its own. -/
def ofClip (project clip : String) : List String → List (Method × Endpoint)
  | [] => [(.patch, .patchClip project clip), (.delete, .removeClip project clip)]
  | ["move"] => [(.post, .moveClip project clip)]
  | ["split"] => [(.post, .splitClip project clip)]
  | ["trim"] => [(.post, .trimClip project clip)]
  | ["resize"] => [(.post, .resizeClip project clip)]
  | ["detach-audio"] => [(.post, .detachAudio project clip)]
  | ["link-audio"] => [(.post, .linkAudio project clip)]
  | ["unlink-audio"] => [(.post, .unlinkAudio project clip)]
  | ["transitions"] =>
    [(.put, .setTransition project clip), (.delete, .removeTransition project clip)]
  | ["filter"] => [(.put, .setLook project clip), (.delete, .resetLook project clip)]
  | _ => []

/-- The endpoints of a project, by the names after its own. -/
def ofProject (project : String) : List String → List (Method × Endpoint)
  | [] => [(.get, .showProject project), (.patch, .patchProject project)]
  | ["undo"] => [(.post, .undo project)]
  | ["redo"] => [(.post, .redo project)]
  | ["tracks"] => [(.post, .addTrack project)]
  | ["tracks", track] =>
    [(.patch, .patchTrack project track), (.delete, .removeTrack project track)]
  | ["clips"] => [(.post, .addClip project)]
  | "clips" :: clip :: rest => ofClip project clip rest
  | ["text-overlays"] => [(.post, .addOverlay project)]
  | ["text-overlays", overlay] =>
    [(.patch, .patchOverlay project overlay), (.delete, .removeOverlay project overlay)]
  | _ => []

/-- The endpoints of renders. -/
def ofRender : List String → List (Method × Endpoint)
  | [] => [(.post, .render)]
  | ["dry-run"] => [(.post, .dryRun)]
  | ["jobs"] => [(.post, .createJob), (.get, .listJobs)]
  | ["jobs", id] => [(.get, .showJob id)]
  | ["jobs", id, "run"] => [(.post, .runJob id)]
  | ["jobs", id, "cancel"] => [(.post, .cancelJob id)]
  | _ => []

/-- The endpoints of a path, by their methods. An empty name names nothing. -/
def ofNames (path : List String) : List (Method × Endpoint) :=
  if path.any (·.isEmpty) then []
  else
    match path with
    | ["media", "assets"] => [(.post, .registerAsset), (.get, .listAssets)]
    | ["media", "assets", id] => [(.get, .showAsset id)]
    | ["video", "timelines"] => [(.post, .createProject), (.get, .listProjects)]
    | "video" :: "timelines" :: project :: rest => ofProject project rest
    | "video" :: "render" :: rest => ofRender rest
    | _ => []

/-- A path without a line break at its end, if there is one. -/
def unbroken (path : List String) : List String :=
  match path.reverse with
  | last :: rest =>
    match last.toList.reverse with
    | '\n' :: front => (String.ofList front.reverse :: rest).reverse
    | _ => path
  | [] => []

/-- The endpoints of a path; a line break at its end does not count unless it belongs to
a name. -/
def ofPath (path : List String) : List (Method × Endpoint) :=
  match ofNames path with
  | [] => ofNames (unbroken path)
  | known => known

end Endpoint

/-- Why a request has no endpoint. -/
inductive Unrouted where
  | noPath
  | noMethod
deriving BEq, DecidableEq, Repr, Inhabited

/-- The endpoint of a request. -/
def Endpoint.find (method : String) (path : List String) : Except Unrouted Endpoint :=
  match ofPath path with
  | [] => .error .noPath
  | known =>
    match (Method.ofName? method).bind fun m => known.find? (·.1 == m) with
    | some (_, endpoint) => .ok endpoint
    | none => .error .noMethod

end Montage
