/-
Studios that requests lead to.

A studio is served if it is opened without projects and jobs, over any library, and answers one
request after the other (`Studio.Served`). A request to edit a project either fails at once or
comes down to edits of that project (`Studio.serve_of_edited`). Any other request makes no
timeline that is not empty, and leaves no trace if it fails (`Studio.serve_of_unedited`). So what
edits keep holds of all timelines of a studio that is served (`Studio.Served.holds`).
-/
import Montage.Api.Respond
import Montage.Proofs.Edit.Bounds
import Montage.Proofs.Render.Housed

namespace Montage

theorem Environment.historyLimit_pos (environment : Environment) : 0 < environment.historyLimit := by
  unfold historyLimit positive
  split
  · split <;> omega
  · decide

/-! ## Endpoints that edit a project -/

namespace Endpoint

/-- The project that an endpoint edits, if it edits one. -/
def edited? : Endpoint → Option String
  | .patchProject p | .addTrack p | .patchTrack p _ | .removeTrack p _ | .addClip p | .patchClip p _
  | .removeClip p _ | .moveClip p _ | .splitClip p _ | .trimClip p _ | .resizeClip p _ | .detachAudio p _
  | .linkAudio p _ | .unlinkAudio p _ | .setTransition p _ | .removeTransition p _ | .setLook p _
  | .resetLook p _ | .addOverlay p | .patchOverlay p _ | .removeOverlay p _ => some p
  | _ => none

/-- How many edits a request to an endpoint may come down to. -/
def steps : Endpoint → Nat
  | .patchTrack .. => 3
  | .patchProject .. | .patchOverlay .. => 2
  | _ => 1

end Endpoint

variable {α ι : Type}

/-! ## The timelines of projects -/

namespace Project

/-- All timelines of a project. -/
def timelines (p : Project α ι) : List (Timeline α ι) := p.current :: (p.past ++ p.future)

variable {p : Project α ι} {t after : Timeline α ι} {limit : Int}

theorem mem_timelines_undo (h : t ∈ p.undo.timelines) : t ∈ p.timelines := by
  unfold undo at h
  split at h
  · exact h
  · next u past hpast =>
    simp only [timelines, hpast, List.mem_cons, List.mem_append] at h ⊢
    tauto

theorem mem_timelines_redo (h : t ∈ p.redo.timelines) : t ∈ p.timelines := by
  unfold redo at h
  split at h
  · exact h
  · next u future hfuture =>
    simp only [timelines, hfuture, List.mem_cons, List.mem_append] at h ⊢
    tauto

theorem id_undo (p : Project α ι) : p.undo.id = p.id := by
  unfold undo
  split <;> rfl

theorem id_redo (p : Project α ι) : p.redo.id = p.id := by
  unfold redo
  split <;> rfl

theorem keep_subset (limit : Int) (past : List (Timeline α ι)) : keep limit past ⊆ past := by
  unfold keep
  split <;> exact List.take_subset _ _

variable [Scalar α] [BEq ι]

theorem id_commit (p : Project α ι) (limit : Int) (after : Timeline α ι) :
    (p.commit limit after).id = p.id := by
  unfold commit
  split <;> rfl

theorem mem_timelines_commit (h : t ∈ (p.commit limit after).timelines) :
    t = after ∨ t ∈ p.timelines := by
  unfold commit at h
  split at h
  · exact .inr h
  · simp only [timelines, List.mem_cons, List.mem_append, List.not_mem_nil, or_false] at h ⊢
    rcases h with h | h
    · exact .inl h
    · have hpast := keep_subset _ _ h
      rw [List.mem_cons] at hpast
      tauto

end Project

/-! ## Projects of a studio -/

namespace Studio

variable {s : Studio α ι} {p q : Project α ι} {id : String}

theorem mem_of_project? (h : s.project? id = some p) : p ∈ s.projects ∧ p.id = id :=
  ⟨List.mem_of_find?_eq_some h, by simpa using List.find?_some h⟩

theorem mem_putProject (h : q ∈ (s.putProject p).projects) : q = p ∨ q ∈ s.projects := by
  unfold putProject at h
  split at h
  · obtain ⟨r, hr, rfl⟩ := List.mem_map.1 h
    split
    · exact .inl rfl
    · exact .inr hr
  · rw [List.mem_append, List.mem_singleton] at h
    exact h.symm

theorem project?_putProject (s : Studio α ι) (p : Project α ι) :
    (s.putProject p).project? p.id = some p := by
  unfold putProject
  split
  · next hany =>
    refine find?_key_replace (List.find?_isSome.2 ?_)
    simpa using hany
  · next hany =>
    have hnone : s.projects.find? (·.id == p.id) = none := by
      simpa [List.find?_eq_none] using hany
    show (s.projects ++ [p]).find? _ = _
    simp [List.find?_append, hnone]

@[simp] theorem store_putProject (s : Studio α ι) (p : Project α ι) : (s.putProject p).store = s.store := by
  unfold putProject
  split <;> rfl

@[simp] theorem historyLimit_putProject (s : Studio α ι) (p : Project α ι) :
    (s.putProject p).historyLimit = s.historyLimit := by
  unfold putProject
  split <;> rfl

end Studio

/-! ## Turns -/

namespace Response

/-- The status of an answer. -/
def status? : Response α → Option Nat
  | .answer status _ => some status
  | .breakdown _ => none

variable {response : Response α} {status : Nat}

theorem isFailure_of_status? (h : response.status? = some status) :
    response.isFailure = decide (400 ≤ status) := by
  cases response <;> cases h
  rfl

/-- A response is written as it stands or breaks down. -/
theorem status?_of_written (h : response.written.status? = some status) :
    response.status? = some status := by
  unfold written at h
  split at h
  · split at h
    · exact h
    · cases h
  · exact h

end Response

namespace Studio

variable {s : Studio α} {id : String} {es : List (Edit α)}

/-- A request that does nothing but fail. -/
structure Fails (s : Studio α) (turn : Turn α) : Prop where
  studio : turn.1 = s
  response : turn.2.isFailure = true

/-- What holds of a request that fails, and of whatever is done with the project, holds if there
may be no such project. -/
theorem withProject_cases {P : Turn α → Prop} {go : Project α → Turn α}
    (hfails : ∀ turn, s.Fails turn → P turn) (h : ∀ p, s.project? id = some p → P (go p)) :
    P (s.withProject id go) := by
  unfold withProject
  split
  · next p hp => exact h p hp
  · exact hfails _ ⟨rfl, rfl⟩

theorem withSetting_cases {β : Type} [Listed β] {target : Target} {name : String} {P : Turn α → Prop}
    {go : Option β → Turn α} (hfails : ∀ turn, s.Fails turn → P turn) (h : ∀ b, P (go b)) :
    P (s.withSetting target name go) := by
  unfold withSetting
  split
  · exact h none
  · split
    · exact h _
    · exact hfails _ ⟨rfl, rfl⟩

/-- What a request asks of a project: one edit, or those that a patch comes down to. -/
inductive Asks (s : Studio α) (id : String) : List (Edit α) → Prop where
  | one (e : Edit α) (he : e.NamesWithText) : Asks s id [e]
  | project (name : Option String) (ratio : Option AspectRatio) :
      Asks s id (name.toList.map (fun name => .setProjectName (.text name)) ++
        ratio.toList.map fun ratio => .setAspectRatio (.text ratio.word))
  | track {p : Project α} {found : Track α} {trackId : String} (patch : TrackPatch α)
      (hp : s.project? id = some p) (hfound : p.current.findTrack trackId = some found) :
      Asks s id (trackEdits found patch)
  | overlay (overlayId : String) (patch : OverlayPatch α) : Asks s id (overlayEdits overlayId patch)

theorem Asks.namesWithText (h : s.Asks id es) : ∀ e ∈ es, e.NamesWithText := by
  cases h with
  | one e he => simpa using he
  | project name ratio =>
    intro e he
    simp only [List.mem_append, List.mem_map] at he
    rcases he with ⟨name, -, rfl⟩ | ⟨ratio, -, rfl⟩
    · exact ⟨name, rfl⟩
    · trivial
  | track patch hp hfound =>
    intro e he
    simp only [trackEdits, List.mem_append, List.mem_ite_nil_right, List.mem_singleton, List.mem_map] at he
    rcases he with (⟨-, rfl⟩ | ⟨-, rfl⟩) | ⟨gain, -, rfl⟩ <;> trivial
  | overlay overlayId patch =>
    intro e he
    simp only [overlayEdits, List.mem_append, List.mem_ite_nil_left, List.mem_singleton, List.mem_map] at he
    rcases he with ⟨-, rfl⟩ | ⟨trackId, -, rfl⟩ <;> trivial

theorem length_trackEdits (found : Track α) (patch : TrackPatch α) : (trackEdits found patch).length ≤ 3 := by
  unfold trackEdits
  cases patch.gain <;> split <;> split <;> simp

theorem length_overlayEdits (overlayId : String) (patch : OverlayPatch α) :
    (overlayEdits overlayId patch).length ≤ 2 := by
  unfold overlayEdits
  cases nonempty? patch.trackId <;> split <;> simp

/-- A request that fails leaves no trace. -/
def Traceless (s : Studio α) (turn : Turn α) : Prop :=
  ∀ status, turn.2.status? = some status → 400 ≤ status → turn.1 = s

/-- A request that edits no project: it makes no timeline but an empty one, loses no job, and
leaves no trace if it fails. -/
structure Spares (s : Studio α) (turn : Turn α) : Prop where
  timelines : ∀ p ∈ turn.1.projects, ∀ t ∈ p.timelines,
    (∃ q ∈ s.projects, t ∈ q.timelines) ∨ ∃ name ratio, t = .empty name ratio
  housed : turn.1.store.Housed
  limit : turn.1.historyLimit = s.historyLimit
  traceless : s.Traceless turn

namespace Traceless

variable {u : Studio α}

theorem self {response : Response α} : s.Traceless (s, response) := fun _ _ _ => rfl

theorem ok {body : Json α} : s.Traceless (u, .ok body) := by
  rintro status ⟨⟩ hstatus
  exact absurd hstatus (by decide)

theorem breakdown {b : Breakdown α} : s.Traceless (u, .breakdown b) := nofun

end Traceless

namespace Spares

theorem of_works {u : Studio α} {response : Response α} (h : s.Works u)
    (ht : s.Traceless (u, response)) : s.Spares (u, response) where
  timelines := fun p hp _ ht => .inl ⟨p, h.projects ▸ hp, ht⟩
  housed := h.store.housed
  limit := h.limit
  traceless := ht

theorem self (h : s.store.Housed) (response : Response α) : s.Spares (s, response) :=
  of_works (.refl h) .self

theorem of_fails (hs : s.store.Housed) (turn : Turn α) (h : s.Fails turn) : s.Spares turn := by
  obtain ⟨u, response⟩ := turn
  obtain rfl : u = s := h.studio
  exact .self hs response

theorem listing {β : Type} (hs : s.store.Housed) (found : Option (List β)) (shown : β → Json α) :
    s.Spares (s.listing found shown) := by
  unfold Studio.listing
  split <;> exact .self hs _

theorem cancelJob (hs : s.store.Housed) (id : String) : s.Spares ((s.cancelJob id).showJob id) := by
  have hworks := Works.cancelJob hs id
  cases hjob : s.store.get? id with
  | none =>
    have hsame : s.cancelJob id = s := by simp [Studio.cancelJob, hjob]
    rw [hsame, showJob, hjob]
    exact .self hs _
  | some job =>
    obtain ⟨later, hlater⟩ := hworks.store.exists_get? hs hjob
    simp only [showJob, hlater]
    exact of_works hworks .ok

end Spares

end Studio

/-! ## Requests that edit a project -/

variable [Scalar α]

theorem Payload.isFailure_of_read {β : Type} {p : Payload α} {fields : Fields α → Report β}
    {response : Response α} (h : p.read fields = .error response) : response.isFailure = true := by
  have hfaulty (j : Json α) (problems : List Problem) :
      (Response.faulty j problems).isFailure = true := by
    unfold Response.faulty
    split <;> rfl
  have hvalue (r : Response α) (hr : p.value? = .error r) : r.isFailure = true := by
    unfold value? at hr
    split at hr
    · cases hr
    · cases hr
    split at hr
    · cases hr
    split at hr
    · cases hr
      rfl
    split at hr <;> cases hr <;> rfl
  unfold read at h
  cases hread : p.value? with
  | error r =>
    rw [hread] at h
    cases h
    exact hvalue response hread
  | ok value =>
    rw [hread] at h
    cases value with
    | none =>
      cases h
      rfl
    | some j =>
      simp only [bind, Except.bind] at h
      split at h
      · cases h
      · next problems _ =>
        cases h
        exact hfaulty j problems

namespace Studio

variable {s : Studio α} {id : String} {n : Nat} {turn : Turn α}

theorem withBody_cases {β : Type} {payload : Payload α} {read : Fields α → Report β} {P : Turn α → Prop}
    {go : β → Turn α} (hfails : ∀ turn, s.Fails turn → P turn) (h : ∀ b, P (go b)) :
    P (s.withBody payload read go) := by
  unfold withBody
  split
  · exact h _
  · next hread => exact hfails _ ⟨rfl, Payload.isFailure_of_read hread⟩

/-- A request that fails at once, or comes down to so many edits of a project at most. -/
def Edits (s : Studio α) (id : String) (n : Nat) (turn : Turn α) : Prop :=
  s.Fails turn ∨ ∃ es, s.Asks id es ∧ es.length ≤ n ∧ turn = editAll id es s

namespace Edits

theorem notFound (kind other : String) : s.Edits id n (s, .notFound kind other) := .inl ⟨rfl, rfl⟩

theorem one (e : Edit α) (he : e.NamesWithText := by exact trivial) : s.Edits id 1 (editAll id [e] s) :=
  .inr ⟨_, .one e he, le_rfl, rfl⟩

theorem withBody {β : Type} {payload : Payload α} {read : Fields α → Report β} {go : β → Turn α}
    (h : ∀ b, s.Edits id n (go b)) : s.Edits id n (s.withBody payload read go) :=
  withBody_cases (fun _ => .inl) h

theorem withProject {go : Project α → Turn α} (h : ∀ p, s.project? id = some p → s.Edits id n (go p)) :
    s.Edits id n (s.withProject id go) :=
  withProject_cases (fun _ => .inl) h

theorem withSetting {β : Type} [Listed β] {target : Target} {name : String} {go : Option β → Turn α}
    (h : ∀ b, s.Edits id n (go b)) : s.Edits id n (s.withSetting target name go) :=
  withSetting_cases (fun _ => .inl) h

end Edits

/-- A request to edit a project fails at once or comes down to edits. -/
theorem serve_of_edited (s : Studio α) (runner : Runner α) (target : Target) (payload : Payload α)
    {endpoint : Endpoint} (h : endpoint.edited? = some id) :
    s.Edits id endpoint.steps (s.serve runner target payload endpoint) := by
  cases endpoint <;> cases h
  case patchProject =>
    refine .withBody fun b => .inr ⟨_, .project b.name b.ratio, ?_, rfl⟩
    cases b.name <;> cases b.ratio <;> simp [Endpoint.steps]
  case patchTrack =>
    refine .withBody fun b => .withProject fun p hp => ?_
    split
    · exact .notFound ..
    · next found hfound => exact .inr ⟨_, .track b hp hfound, length_trackEdits found b, rfl⟩
  case patchOverlay =>
    refine .withBody fun b => .withProject fun p hp => ?_
    split
    · exact .notFound ..
    · exact .inr ⟨_, .overlay _ b, length_overlayEdits _ b, rfl⟩
  case addClip =>
    refine .withBody fun b => ?_
    split
    · exact .notFound ..
    · exact .one _
  case moveClip =>
    refine .withBody fun d => .withProject fun p hp => ?_
    split
    · exact .notFound ..
    · exact .notFound ..
    · exact .one _
  case removeTransition => exact .withSetting fun side => .one _
  case removeTrack track => exact .one (.removeTrack track)
  case removeClip clip => exact .one (.removeClip clip)
  case detachAudio clip => exact .one (.detachAudio clip none)
  case unlinkAudio clip => exact .one (.unlinkAudio clip)
  case resetLook clip => exact .one (.resetLook clip)
  case removeOverlay overlay => exact .one (.removeOverlay overlay)
  all_goals exact .withBody fun b => .one _

/-! ## Requests for anything else -/

namespace Spares

/-- A project comes in, or one of its timelines is put in the place of the one at hand. -/
theorem put {u : Studio α} {p : Project α} (h : s.Works u) (hid : p.id = id)
    (hp : ∀ t ∈ p.timelines, (∃ q ∈ s.projects, t ∈ q.timelines) ∨ ∃ name ratio, t = .empty name ratio) :
    s.Spares ((u.putProject p).showProject id) := by
  have hshown : (u.putProject p).showProject id = (u.putProject p, .ok p.shown) := by
    rw [showProject, ← hid, project?_putProject]
  rw [hshown]
  refine ⟨fun q hq t ht => ?_, ?_, ?_, .ok⟩
  · rcases mem_putProject hq with rfl | hq
    · exact hp t ht
    · exact .inl ⟨q, h.projects ▸ hq, ht⟩
  · rw [store_putProject]
    exact h.store.housed
  · rw [historyLimit_putProject]
    exact h.limit

theorem withBody {β : Type} (hs : s.store.Housed) {payload : Payload α} {read : Fields α → Report β}
    {go : β → Turn α} (h : ∀ b, s.Spares (go b)) : s.Spares (s.withBody payload read go) :=
  withBody_cases (of_fails hs) h

theorem showProject (hs : s.store.Housed) (id : String) : s.Spares (s.showProject id) := by
  unfold Studio.showProject
  split <;> exact .self hs _

/-- A job that is run is still there to be shown. -/
theorem runAndShow (hs : s.store.Housed) (runner : Runner α) (id : String) :
    s.Spares (s.runAndShow runner id) := by
  unfold Studio.runAndShow
  split
  · exact .self hs _
  next job hjob =>
  have hworks := Works.runJob hs runner id
  split
  · next u he =>
    rw [he] at hworks
    obtain ⟨later, hlater⟩ := hworks.store.exists_get? hs hjob
    simp only [showJob, hlater]
    exact of_works hworks .ok
  · next u e he =>
    rw [he] at hworks
    exact of_works hworks .breakdown

theorem renderNow (hs : s.store.Housed) (runner : Runner α) (r : RenderRequest) :
    s.Spares (s.renderNow runner r) := by
  unfold Studio.renderNow
  split
  · exact .self hs _
  · next u result hu => exact of_works (.render hs hu) .ok
  · next u problems hu => exact of_works (.render hs hu) .breakdown

end Spares

/-- A request for anything else makes no timeline but an empty one, and fails without a trace. -/
theorem serve_of_unedited (hs : s.store.Housed) (runner : Runner α) (target : Target) (payload : Payload α)
    {endpoint : Endpoint} (h : endpoint.edited? = none) :
    s.Spares (s.serve runner target payload endpoint) := by
  cases endpoint <;> cases h
  case registerAsset =>
    exact .withBody hs fun r => .of_works ⟨.refl hs, rfl, rfl⟩ .ok
  case listAssets => exact withSetting_cases (Spares.of_fails hs) fun kind => .listing hs _ _
  case showAsset id =>
    rw [serve]
    split <;> exact .self hs _
  case createProject =>
    refine .withBody hs fun b => .put (u := { s with ids := s.ids.rest }) ⟨.refl hs, rfl, rfl⟩ rfl ?_
    intro t ht
    obtain rfl : t = .empty b.name b.ratio := by simpa [Project.timelines, Project.new] using ht
    exact .inr ⟨_, _, rfl⟩
  case listProjects => exact .self hs _
  case showProject p => exact .showProject hs p
  case undo =>
    refine withProject_cases (Spares.of_fails hs) fun p hp => ?_
    obtain ⟨hmem, hid⟩ := mem_of_project? hp
    refine .put (.refl hs) (p.id_undo.trans hid) fun t ht => .inl ⟨p, hmem, Project.mem_timelines_undo ht⟩
  case redo =>
    refine withProject_cases (Spares.of_fails hs) fun p hp => ?_
    obtain ⟨hmem, hid⟩ := mem_of_project? hp
    refine .put (.refl hs) (p.id_redo.trans hid) fun t ht => .inl ⟨p, hmem, Project.mem_timelines_redo ht⟩
  case render => exact .withBody hs fun r => .renderNow hs runner r
  case dryRun =>
    refine .withBody hs fun r => ?_
    split <;> exact .self hs _
  case createJob =>
    refine .withBody hs fun r => ?_
    split
    · exact .self hs _
    · next u job hu => exact .of_works (.createJob hs hu) .ok
  case listJobs => exact .listing hs _ _
  case showJob id =>
    show s.Spares (s.showJob id)
    unfold Studio.showJob
    split <;> exact .self hs _
  case runJob id => exact .runAndShow hs runner id
  case cancelJob id => exact .cancelJob hs id

/-! ## Requests answered one after the other -/

/-- The studios that requests lead to, from one without projects and jobs over any library. -/
inductive Served : Studio α → Prop where
  | opened (environment : Environment) (library : Library α) :
      Served { vacant environment environment.historyLimit with library }
  | answered {s : Studio α} (runner : Runner α) (r : ApiRequest α) :
      Served s → Served (s.respond runner r).1

/-- A runner that does what it is asked for. -/
def promptly : Runner α := fun _ plan => .finish (.produced (some plan.output))

/-- The studio after some requests. -/
def answerAll (s : Studio α) (runner : Runner α) (requests : List (ApiRequest α)) : Studio α :=
  requests.foldl (fun s r => (s.respond runner r).1) s

theorem Served.answerAll {s : Studio α} (runner : Runner α) (requests : List (ApiRequest α)) (h : s.Served) :
    (s.answerAll runner requests).Served := by
  induction requests generalizing s with
  | nil => exact h
  | cons r requests ih => exact ih (h.answered runner r)

/-- What is done at an endpoint is answered as it is written, and the names are given back if that
is a failure. -/
theorem respond_eq {runner : Runner α} {r : ApiRequest α} {endpoint : Endpoint}
    (h : Endpoint.find r.method r.target.path = .ok endpoint) :
    s.respond runner r =
      let turn := s.serve runner r.target r.payload endpoint
      (if turn.2.written.isFailure then { turn.1 with ids := s.ids } else turn.1, turn.2.written) := by
  unfold respond
  rw [h]
  dsimp only
  split <;> rfl

end Studio

/-- What empty timelines have and edits keep. -/
structure Edit.Keeps (P : Timeline α → Prop) : Prop where
  empty : ∀ name ratio, P (.empty name ratio)
  run : ∀ {t u : Timeline α} {e : Edit α} {ids rest : Ids}, P t → e.NamesWithText →
    e.run t ids = .ok (u, rest) → P u

namespace Studio

variable {s u : Studio α} {p : Project α} {id : String} {es : List (Edit α)}

/-- A studio of whose timelines something holds, which loses no jobs and keeps some history. -/
structure Holds (P : Timeline α → Prop) (s : Studio α) : Prop where
  timelines : ∀ p ∈ s.projects, ∀ t ∈ p.timelines, P t
  housed : s.store.Housed
  limit : ∃ limit : Nat, 0 < limit ∧ s.historyLimit = limit

theorem edit_eq_ok {e : Edit α} : s.edit p e = .ok u ↔ ∃ after rest, e.run p.current s.ids = .ok (after, rest) ∧
    u = ({ s with ids := rest } : Studio α).putProject (p.commit s.historyLimit after) := by
  simp only [edit, Project.apply, map_eq_ok, Edit.apply_eq_run]
  constructor
  · rintro ⟨_, ⟨⟨after, rest⟩, hr, rfl⟩, rfl⟩
    exact ⟨after, rest, hr, rfl⟩
  · rintro ⟨after, rest, hr, rfl⟩
    exact ⟨_, ⟨_, hr, rfl⟩, rfl⟩

/-- An edited project is there under its id. -/
theorem project?_of_edit {e : Edit α} (hp : s.project? id = some p) (hu : s.edit p e = .ok u) :
    ∃ after rest, e.run p.current s.ids = .ok (after, rest) ∧
      u.project? id = some (p.commit s.historyLimit after) ∧ u.historyLimit = s.historyLimit := by
  obtain ⟨after, rest, hr, rfl⟩ := edit_eq_ok.1 hu
  obtain ⟨-, rfl⟩ := mem_of_project? hp
  refine ⟨after, rest, hr, ?_, historyLimit_putProject _ _⟩
  rw [← p.id_commit s.historyLimit after]
  exact project?_putProject _ _

namespace Holds

variable {P : Timeline α → Prop}

theorem edit (h : s.Holds P) (hP : Edit.Keeps P) (hp : s.project? id = some p) {e : Edit α}
    (he : e.NamesWithText) (hu : s.edit p e = .ok u) : u.Holds P := by
  obtain ⟨after, rest, hr, rfl⟩ := edit_eq_ok.1 hu
  have hmem := (mem_of_project? hp).1
  refine ⟨fun q hq t ht => ?_, ?_, ?_⟩
  · rcases mem_putProject hq with rfl | hq
    · rcases Project.mem_timelines_commit ht with rfl | ht
      · exact hP.run (h.timelines p hmem p.current List.mem_cons_self) he hr
      · exact h.timelines p hmem t ht
    · exact h.timelines q hq t ht
  · rw [store_putProject]
    exact h.housed
  · rw [historyLimit_putProject]
    exact h.limit

theorem editAll (hP : Edit.Keeps P) (hes : ∀ e ∈ es, e.NamesWithText) (h : s.Holds P) :
    (editAll id es s).1.Holds P := by
  induction es generalizing s with
  | nil =>
    unfold Studio.editAll showProject
    split <;> exact h
  | cons e es ih =>
    unfold Studio.editAll
    split
    · exact h
    next p hp =>
    split
    · exact h
    next u hu =>
    exact ih (fun e he => hes e (List.mem_cons_of_mem _ he)) (h.edit hP hp (hes e List.mem_cons_self) hu)

theorem serve (h : s.Holds P) (hP : Edit.Keeps P) (runner : Runner α) (target : Target) (payload : Payload α)
    (endpoint : Endpoint) : (s.serve runner target payload endpoint).1.Holds P := by
  cases hedited : endpoint.edited? with
  | none =>
    have hspares := serve_of_unedited h.housed runner target payload hedited
    refine ⟨fun p hp t ht => ?_, hspares.housed, hspares.limit ▸ h.limit⟩
    rcases hspares.timelines p hp t ht with ⟨q, hq, ht⟩ | ⟨name, ratio, rfl⟩
    · exact h.timelines q hq t ht
    · exact hP.empty name ratio
  | some id =>
    rcases serve_of_edited s runner target payload hedited with hfails | ⟨es, hasks, -, he⟩
    · rw [hfails.studio]
      exact h
    · rw [he]
      exact editAll hP hasks.namesWithText h

theorem respond (h : s.Holds P) (hP : Edit.Keeps P) (runner : Runner α) (r : ApiRequest α) :
    (s.respond runner r).1.Holds P := by
  cases hfound : Endpoint.find r.method r.target.path with
  | error unrouted => cases unrouted <;> simpa only [Studio.respond, hfound] using h
  | ok endpoint =>
    have hserved := h.serve hP runner r.target r.payload endpoint
    rw [respond_eq hfound]
    dsimp only
    split
    · exact ⟨hserved.timelines, hserved.housed, hserved.limit⟩
    · exact hserved

end Holds

/-- **What edits keep holds of every timeline of a studio that is served.** -/
theorem Served.holds {P : Timeline α → Prop} (h : s.Served) (hP : Edit.Keeps P) : s.Holds P := by
  induction h with
  | opened environment library =>
    refine ⟨nofun, .empty, environment.historyLimit, ?_, rfl⟩
    exact environment.historyLimit_pos
  | answered runner r _ ih => exact ih.respond hP runner r

end Studio

end Montage
