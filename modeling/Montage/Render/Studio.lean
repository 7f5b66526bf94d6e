/-
The studio: projects, media and render jobs together.

Edits go to a project's timeline, a request to render becomes a job with a plan
of the timeline as it stands, and running a job hands that plan to a runner. A
job that waits or runs can be cancelled: one that waits never starts, one that
runs has a flag its runner may look at.
-/
import Montage.Edit.Command
import Montage.Environment
import Montage.Export.Invocation
import Montage.Engine.Path
import Montage.Project.History
import Montage.Render.Runner

namespace Montage

/-- All that the studio keeps. -/
structure Studio (α : Type) (ι : Type := String) where
  environment : Environment
  historyLimit : Int
  ids : Ids
  /-- The ticks of the clock so far. -/
  clock : Nat
  projects : List (Project α ι)
  library : Library α
  store : JobStore α
  /-- The jobs that can be told to stop, and whether they have been. -/
  flags : List (String × Bool)
  /-- How many runs there have been. -/
  runs : Nat

/-- Why a request to render fails before anything runs. -/
inductive RenderError (α : Type) (ι : Type := String) where
  | noProject (id : String)
  | compile (e : CompileError α ι)
deriving BEq, Repr

/-- Why a job cannot be run. -/
inductive RunError where
  | noJob
  | badPlan (problems : List Problem)
deriving BEq, Repr

def RunError.message : RunError → String
  | .noJob => "job not found"
  | .badPlan ps => problemsText ps

variable {α ι : Type} [Scalar α]

/-- The result of a request to render. -/
structure RenderResult (α : Type) where
  jobId : String
  status : String
  output : Option String
  error : Option String
  plan : Plan α

/-- The fields of a result. -/
def RenderResult.fields (r : RenderResult α) : Fields α :=
  [("job_id", .text r.jobId), ("status", .text r.status),
    ("output_path", .optionalText r.output), ("error", .optionalText r.error),
    ("plan_preview", .object r.plan.fields)]

/-- The fields of a result in short. -/
def RenderResult.summary (r : RenderResult α) : Fields α :=
  [("job_id", .text r.jobId), ("status", .text r.status),
    ("output_path", .optionalText r.output), ("error", .optionalText r.error),
    ("duration", .real r.plan.duration), ("filters", .int r.plan.filters.length),
    ("meta", .object r.plan.notes)]

namespace Studio

/-- A studio with nothing in it. -/
def vacant (environment : Environment) (historyLimit : Int) : Studio α ι :=
  ⟨environment, historyLimit, Ids.start, 0, [], ∅, ∅, [], 0⟩

/-! Projects. -/

def project? (s : Studio α ι) (id : String) : Option (Project α ι) := s.projects.find? (·.id == id)

/-- The studio with a project in the place of the one of its id. -/
def putProject (s : Studio α ι) (p : Project α ι) : Studio α ι :=
  if s.projects.any (·.id == p.id) then
    { s with projects := s.projects.map fun q => if q.id == p.id then p else q }
  else { s with projects := s.projects ++ [p] }

/-- The studio with a new project, and its id. -/
def createProject (s : Studio α ι) (t : Timeline α ι) : Studio α ι × String :=
  let id := s.ids.next
  (({ s with ids := s.ids.rest } : Studio α ι).putProject (Project.new id t), id)

/-- The studio without a project. -/
def deleteProject (s : Studio α ι) (id : String) : Studio α ι :=
  { s with projects := s.projects.filter (·.id != id) }

/-- The studio after an edit of a project's timeline. -/
def commit [BEq ι] (s : Studio α ι) (p : Project α ι) (after : Timeline α ι) (ids : Ids) : Studio α ι :=
  ({ s with ids } : Studio α ι).putProject (p.commit s.historyLimit after)

/-- The studio after an edit, or why it is refused. -/
def edit [BEq ι] [Label ι α] (s : Studio α ι) (p : Project α ι) (e : Edit α ι) : Except Refusal (Studio α ι) :=
  (p.apply s.historyLimit fun t => e.apply t s.ids).map fun (p, ids) =>
    ({ s with ids } : Studio α ι).putProject p

def undo (s : Studio α ι) (p : Project α ι) : Studio α ι := s.putProject p.undo

def redo (s : Studio α ι) (p : Project α ι) : Studio α ι := s.putProject p.redo

/-! Media. -/

/-- The studio with a new asset. -/
def register (s : Studio α ι) (r : Registration α) : Studio α ι × Asset α :=
  let asset : Asset α := { toRegistration := r, id := s.ids.next, created := .tick (s.clock + 1) }
  ({ s with ids := s.ids.rest, clock := s.clock + 1, library := s.library.insert asset }, asset)

/-- The studio with an asset of given fields. -/
def receive (s : Studio α ι) (fs : Fields α) : Report (Studio α ι) :=
  (Asset.read s.ids.next (.tick (s.clock + 1)) fs).map fun asset =>
    { s with
      ids := if fs.has "id" then s.ids else s.ids.rest
      clock := s.clock + if fs.has "created_at" then 0 else 1
      library := s.library.insert asset }

/-- The studio without an asset; clips still name it. -/
def deleteAsset (s : Studio α ι) (id : String) : Studio α ι :=
  { s with library := s.library.erase id }

/-! Plans and jobs. -/

/-- Where the output of a request goes. -/
def outputPath (s : Studio α ι) (r : RenderRequest) : String :=
  match nonempty? r.output with
  | some path => path
  | none =>
    Path.join (s.environment.outputDir?.getD "/tmp")
      (r.settings.filename ++ "." ++ Listed.word r.settings.container)

/-- What a plan notes of a segment. -/
def segmentNote [Label ι α] (x : Segment α ι) : Json α :=
  .object [("kind", .text x.kind.word), ("duration", .real x.duration),
    ("clip_ids", .list (x.clipIds.map Label.data))]

/-- The plan of a compiled timeline. -/
def planOf [Label ι α] (s : Studio α ι) (t : Timeline α ι) (r : RenderRequest) (c : Compiled α ι) : Plan α :=
  let output := s.outputPath r
  { inputs := c.inputs.map (·.uri)
    inputNotes := c.inputs.map fun i => [("clip_id", Label.data i.clipId), ("kind", .text i.kind.word)]
    steps := [⟨"render timeline", c.invocation r.settings s.environment.engine output⟩]
    output
    width := c.width
    height := c.height
    fps := c.rate.value
    duration := c.duration
    filters := c.graph.lines Filter.text
    notes := [("project_name", t.projectName),
      ("aspect_ratio", .text (r.settings.aspectRatio.getD t.aspectRatio).word),
      ("segments", .list (c.segments.map segmentNote)), ("ops", .texts c.graph.ops),
      ("warnings", .texts c.warnings)] }

/-- The plan for a request, of the timeline as it stands. -/
def buildPlan [BEq ι] [Label ι α] (s : Studio α ι) (r : RenderRequest) : Except (RenderError α ι) (Plan α) :=
  match s.project? r.projectId with
  | none => .error (.noProject r.projectId)
  | some p =>
    match compile p.current s.library r.settings s.environment.font with
    | .error e => .error (.compile e)
    | .ok c => .ok (s.planOf p.current r c)

/-- The plan for a request, as a result. -/
def dryRun [BEq ι] [Label ι α] (s : Studio α ι) (r : RenderRequest) : Except (RenderError α ι) (RenderResult α) :=
  (s.buildPlan r).map fun plan => ⟨"dry-run", "planned", some plan.output, none, plan⟩

/-- The studio with a new job of given fields, and the job. The clock is asked for its
times even if the fields are not those of a job. -/
def enterJob (s : Studio α ι) (fs : Fields α) : Studio α ι × Report (Job α) :=
  let timed : Studio α ι := { s with clock := s.clock + Job.ticks fs }
  match Job.read s.ids.next s.clock fs with
  | .invalid problems => (timed, .invalid problems)
  | .valid job =>
    ({ timed with
      ids := if fs.has "id" then s.ids else s.ids.rest
      store := s.store.insert job }, .valid job)

/-- The studio with the job of a name changed, stamped and stored. -/
def updateJob (s : Studio α ι) (name : String) (j : Job α) : Studio α ι :=
  { s with clock := s.clock + 1, store := s.store.put name (j.stamp (.tick (s.clock + 1))) }

/-- The studio with fields of the job of a name set in turn. It is stored if they all
are, and keeps what was set if one is not. -/
def amendJob (s : Studio α ι) (name : String) (job : Job α) (changes : Fields α) :
    Studio α ι × Option BadChange :=
  match Setter.all Job.set job changes with
  | (job, none) => (s.updateJob name job, none)
  | (job, some e) => ({ s with store := s.store.change name job }, some e)

/-- The studio with a new job for a request, and the job. -/
def createJob [BEq ι] [Label ι α] (s : Studio α ι) (r : RenderRequest) : Except (RenderError α ι) (Studio α ι × Job α) :=
  (s.buildPlan r).map fun plan =>
    let job : Job α := {
      id := s.ids.next, projectId := r.projectId, status := .queued, progress := 0.0
      output := some plan.output, error := none, snapshot := some plan.fields
      request := r.fields, created := .tick (s.clock + 1), updated := .tick (s.clock + 2)
      finished := none }
    ({ s with
      ids := s.ids.rest
      clock := s.clock + 2
      flags := s.flags ++ [(job.id, false)]
      store := s.store.insert job }, job)

/-- The studio after a job was told to stop. -/
def cancelJob (s : Studio α ι) (id : String) : Studio α ι :=
  match s.store.get? id with
  | none => s
  | some job =>
    if job.isTerminal then s
    else
      let s : Studio α ι := { s with
        flags := s.flags.map fun f => if f.1 == id then (id, true) else f }
      if job.status = .queued then s.updateJob id { job with status := .cancelled } else s

/-- Whether a job has been told to stop. -/
def isCancelled (s : Studio α ι) (id : String) : Bool := s.flags.any fun f => f.1 == id && f.2

/-- The studio at the start of a run. -/
def startJob (s : Studio α ι) (job : Job α) : Studio α ι :=
  let s : Studio α ι :=
    if s.flags.any (·.1 == job.id) then s else { s with flags := s.flags ++ [(job.id, false)] }
  s.updateJob job.id { job with status := .running, progress := 0.0, error := none, finished := none }

/-- The job at the end of a run. -/
def endJob (job : Job α) : Outcome → Job α
  | .produced path => { job with output := path, status := .succeeded, progress := 1.0 }
  | .cancelled => { job with status := .cancelled }
  | .failed e => { job with status := .failed, error := some e.message }
  | .crashed c => { job with status := .failed, error := some (c.kind ++ ": " ++ c.text) }

/-- The studio with a change to a job, stamped. -/
def changeJob (s : Studio α ι) (id : String) (f : Job α → Job α) : Studio α ι :=
  match s.store.get? id with
  | some job => s.updateJob id (f job)
  | none => s

/-- The studio after the conduct of a job's run. -/
def follow (id : String) : Studio α ι → Conduct α → Studio α ι
  | s, .report fraction next =>
    follow id (s.changeJob id fun j => { j with progress := Job.fraction fraction }) next
  | s, .cancel chosen next =>
    let ids := (s.store.toList.filter chosen).map (·.id)
    follow id (ids.foldl cancelJob s) next
  | s, .look cancelled otherwise =>
    if s.isCancelled id then follow id s cancelled else follow id s otherwise
  | s, .finish outcome =>
    let s : Studio α ι := { s with flags := s.flags.filter (·.1 != id) }
    s.changeJob id fun j => endJob j outcome

/-- Whether a job of this status is run when asked to. -/
def runs? : JobStatus → Bool
  | .queued => true
  | .failed => true
  | _ => false

/-- The studio after a job was asked to run. -/
def runJob (s : Studio α ι) (runner : Runner α) (id : String) : Studio α ι × Except RunError Unit :=
  match s.store.get? id with
  | none => (s, .error .noJob)
  | some job =>
    if !runs? job.status then (s, .ok ())
    else
      let s := s.startJob job
      match Plan.read (job.snapshot.getD []) with
      | .invalid ps => (s, .error (.badPlan ps))
      | .valid plan =>
        (follow id { s with runs := s.runs + 1 } (runner s.runs plan), .ok ())

/-- The result of a job that has been run. -/
def resultOf (job : Job α) : Report (RenderResult α) :=
  (Plan.read (job.snapshot.getD [])).map fun plan =>
    ⟨job.id, job.status.word, if job.status = .succeeded then job.output else none, job.error,
      plan⟩

/-- The studio after a request to render was carried out, and its result. -/
def render [BEq ι] [Label ι α] (s : Studio α ι) (runner : Runner α) (r : RenderRequest) :
    Except (RenderError α ι) (Studio α ι × Report (RenderResult α)) :=
  if r.dryRun then (s.dryRun r).map fun result => (s, .valid result)
  else
    (s.createJob r).map fun (s, job) =>
      let (s, _) := s.runJob runner job.id
      (s, resultOf ((s.store.get? job.id).getD job))

end Studio

end Montage
