/-
Render jobs and where they are kept.

A job is one export of one timeline as it stood when the job was made. Whenever
a job is stored it is stamped with the time; the first time it is stored in a
final status is its end. A job whose id is changed is stored under both ids.
-/
import Montage.Instant
import Montage.Render.Plan
import Montage.Schema.Record

namespace Montage

inductive JobStatus where
  | queued
  | running
  | succeeded
  | failed
  | cancelled
deriving BEq, DecidableEq, Repr, Inhabited

instance : Listed JobStatus where
  all := [.queued, .running, .succeeded, .failed, .cancelled]
  word
    | .queued => "queued"
    | .running => "running"
    | .succeeded => "succeeded"
    | .failed => "failed"
    | .cancelled => "cancelled"

def JobStatus.word (s : JobStatus) : String := Listed.word s

/-- Whether a job of this status is at its end. -/
def JobStatus.isTerminal : JobStatus → Bool
  | .succeeded => true
  | .failed => true
  | .cancelled => true
  | _ => false

structure Job (α : Type) where
  id : String
  projectId : String
  status : JobStatus
  progress : α
  output : Option String
  error : Option String
  snapshot : Option (Fields α)
  request : Fields α
  created : Instant
  updated : Instant
  finished : Option Instant

variable {α : Type} [Scalar α]

namespace Job

def isTerminal (j : Job α) : Bool := j.status.isTerminal

/-- A fraction of the whole. -/
def fraction (x : α) : α := Scalar.clamp x 0.0 1.0

/-- How often the clock is asked for the time of a job with these fields. -/
def ticks (fs : Fields α) : Nat :=
  ["created_at", "updated_at"].countP fun name => !fs.has name

/-- A job read from its fields, made after a tick of the clock. -/
def read (newId : String) (clock : Nat) (fs : Fields α) : Report (Job α) :=
  let created := clock + if fs.has "created_at" then 0 else 1
  Job.mk <$> fs.withDefault "id" newId Read.text
    <*> fs.require "project_id" Read.text
    <*> fs.withDefault "status" .queued Read.choice
    <*> fs.withDefault "progress" 0.0 (fun j => (Read.number j).map fraction)
    <*> fs.withDefault "output_path" none (Read.optional Read.text)
    <*> fs.withDefault "error_message" none (Read.optional Read.text)
    <*> fs.withDefault "plan_snapshot" none (Read.optional Read.mapping)
    <*> fs.withDefault "request_payload" [] Read.mapping
    <*> fs.withDefault "created_at" (.tick created) Read.instant
    <*> fs.withDefault "updated_at" (.tick (created + 1)) Read.instant
    <*> fs.withDefault "finished_at" none (Read.optional Read.instant)

/-- The fields of a job, its times apart. -/
def fields (j : Job α) : Fields α :=
  [("id", .text j.id), ("project_id", .text j.projectId), ("status", .text j.status.word),
    ("progress", .real j.progress), ("output_path", .optionalText j.output),
    ("error_message", .optionalText j.error),
    ("plan_snapshot", match j.snapshot with | some fs => .object fs | none => .null),
    ("request_payload", .object j.request)]

/-- The fields of a job in short, and how it has ended. -/
def summary (j : Job α) : Fields α :=
  [("id", .text j.id), ("project_id", .text j.projectId), ("status", .text j.status.word),
    ("progress", .real j.progress), ("output_path", .optionalText j.output),
    ("error_message", .optionalText j.error), ("finished", .bool j.finished.isSome),
    ("finished_at_last_update", .bool (j.finished == some j.updated)),
    ("terminal", .bool j.isTerminal)]

/-- A job with one field set, checked. -/
def set : Setter α (Job α) := fun j name value =>
  let checked {β : Type} (read : Json α → Report β) (put : β → Job α) (held : β → Json α) :
      Except BadChange (Json α × Job α) :=
    match (read value).under (.field name) with
    | .valid v => .ok (held v, put v)
    | .invalid problems => .error (.invalid problems)
  match name with
  | "id" => checked Read.text (fun v => { j with id := v }) .text
  | "project_id" => checked Read.text (fun v => { j with projectId := v }) .text
  | "status" => checked Read.choice (fun v => { j with status := v }) fun v => .text v.word
  | "progress" =>
    checked (fun j => (Read.number j).map fraction) (fun v => { j with progress := v }) .real
  | "output_path" =>
    checked (Read.optional Read.text) (fun v => { j with output := v }) .optionalText
  | "error_message" =>
    checked (Read.optional Read.text) (fun v => { j with error := v }) .optionalText
  | "plan_snapshot" =>
    checked (Read.optional Read.mapping) (fun v => { j with snapshot := v }) fun _ => value
  | "request_payload" => checked Read.mapping (fun v => { j with request := v }) fun _ => value
  | "created_at" => checked Read.instant (fun v => { j with created := v }) fun _ => value
  | "updated_at" => checked Read.instant (fun v => { j with updated := v }) fun _ => value
  | "finished_at" =>
    checked (Read.optional Read.instant) (fun v => { j with finished := v }) fun _ => value
  | "is_terminal" => .error .derived
  | _ =>
    if isNote name then (leaveNote name value).map (·, j)
    else if originNames.contains name then .error .derived
    else .error (.invalid [⟨[.field name], .noSuchField⟩])

/-- The job as it is stored at a time. -/
def stamp (j : Job α) (now : Instant) : Job α :=
  { j with
    updated := now
    finished := if j.isTerminal && j.finished.isNone then some now else j.finished }

end Job

/-- The jobs that ever came in, and the names that they are known under: the place of
a job, by each id that it was stored with. -/
structure JobStore (α : Type) where
  jobs : List (Job α)
  names : List (String × Nat)

namespace JobStore

variable {α : Type}

instance : EmptyCollection (JobStore α) := ⟨⟨[], []⟩⟩

/-- The place of the job of a name. -/
def place? (s : JobStore α) (name : String) : Option Nat :=
  (s.names.find? (·.1 == name)).map (·.2)

/-- The job of a name. -/
def get? (s : JobStore α) (name : String) : Option (Job α) :=
  (s.place? name).bind fun n => s.jobs[n]?

/-- The store in which a name stands for the job at a place. -/
def call (s : JobStore α) (name : String) (place : Nat) : JobStore α :=
  if s.names.any (·.1 == name) then
    { s with names := s.names.map fun f => if f.1 == name then (name, place) else f }
  else { s with names := s.names ++ [(name, place)] }

/-- The store with a new job, known under its id alone. -/
def insert (s : JobStore α) (j : Job α) : JobStore α :=
  ({ s with jobs := s.jobs ++ [j] } : JobStore α).call j.id s.jobs.length

/-- The store with the job of a name changed, under all its names. -/
def change (s : JobStore α) (name : String) (j : Job α) : JobStore α :=
  match s.place? name with
  | some n => { s with jobs := s.jobs.set n j }
  | none => s

/-- The store with the job of a name changed, and known under its id as well. -/
def put (s : JobStore α) (name : String) (j : Job α) : JobStore α :=
  match s.place? name with
  | some n => (s.change name j).call j.id n
  | none => s.insert j

/-- The job of each name. -/
def toList (s : JobStore α) : List (Job α) := s.names.filterMap fun f => s.jobs[f.2]?

/-- The jobs of a project and a status, or all, the latest first; none if they have no
order. -/
def list? (s : JobStore α) (projectId status : Option String) : Option (List (Job α)) :=
  let chosen := s.toList.filter fun j =>
    (projectId.isNone || some j.projectId == projectId) &&
      (status.isNone || some j.status.word == status)
  Instant.sorted? (·.created) (fun a b => b ≤ a) chosen

/-- The jobs that values choose by their project and status: null chooses all, what is no
text none. -/
def select? (s : JobStore α) (projectId status : Json α) : Option (List (Job α)) :=
  let choice : Json α → Option (Option String)
    | .null => some none
    | .text s => some (some s)
    | _ => none
  match choice projectId, choice status with
  | some projectId, some status => s.list? projectId status
  | _, _ => some []

end JobStore

end Montage
