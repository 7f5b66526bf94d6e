/-
Requests to render, and the plans made for them.

A plan says all that a run of the engine needs: it is made once, kept as data
with its job, and read back when the job is run.
-/
import Montage.Export.Settings

namespace Montage

/-- A request to render a project. -/
structure RenderRequest where
  projectId : String
  settings : ExportSettings
  output : Option String
  dryRun : Bool
deriving BEq, DecidableEq, Repr

/-- One call of the engine. -/
structure PlanStep where
  description : String
  arguments : List String
deriving BEq, DecidableEq, Repr

structure Plan (α : Type) where
  inputs : List String
  inputNotes : List (Fields α)
  steps : List PlanStep
  output : String
  width : Int
  height : Int
  fps : Int
  duration : α
  filters : List String
  notes : Fields α

variable {α : Type} [Scalar α]

namespace RenderRequest

/-- A request read from its fields. `record` names what is no record. -/
def read (record : Fault) (fs : Fields α) : Report RenderRequest :=
  let settings : Json α → Report ExportSettings
    | .object settings => ExportSettings.read settings
    | _ => .fault record
  RenderRequest.mk <$> fs.require "project_id" Read.text
    <*> fs.withDefault "settings" ExportSettings.default settings
    <*> fs.withDefault "output_path" none (Read.optional Read.text)
    <*> fs.withDefault "dry_run" false Read.boolean

/-- The fields of a request. -/
def fields (r : RenderRequest) : Fields α :=
  [("project_id", .text r.projectId), ("settings", .object r.settings.fields),
    ("output_path", .optionalText r.output), ("dry_run", .bool r.dryRun)]

end RenderRequest

namespace PlanStep

/-- A step read from its fields. -/
def read (fs : Fields α) : Report PlanStep :=
  PlanStep.mk <$> fs.require "description" Read.text
    <*> fs.withDefault "ffmpeg_args" [] (Read.list .notList Read.text)

/-- The fields of a step. -/
def fields (s : PlanStep) : Fields α :=
  [("description", .text s.description), ("ffmpeg_args", .texts s.arguments)]

end PlanStep

namespace Plan

/-- A plan read from its fields. -/
def read (fs : Fields α) : Report (Plan α) :=
  Plan.mk <$> fs.withDefault "inputs" [] (Read.list .notList Read.text)
    <*> fs.withDefault "input_meta" [] (Read.list .notList Read.mapping)
    <*> fs.withDefault "steps" [] (Read.list .notList (Read.record PlanStep.read))
    <*> fs.require "output_path" Read.text
    <*> fs.require "width" Read.integer
    <*> fs.require "height" Read.integer
    <*> fs.require "fps" Read.integer
    <*> fs.require "duration" Read.number
    <*> fs.withDefault "filters" [] (Read.list .notList Read.text)
    <*> fs.withDefault "meta" [] Read.mapping

/-- A plan of steps alone, for a picture of one point. -/
def bare (steps : List (Json α)) (output duration : Json α) : Report (Plan α) :=
  let step (arguments : Json α) : Json α :=
    .object [("description", .text ""), ("ffmpeg_args", arguments)]
  read [("steps", .list (steps.map step)), ("output_path", output), ("width", .int 1),
    ("height", .int 1), ("fps", .int 1), ("duration", duration)]

/-- The fields of a plan. -/
def fields (p : Plan α) : Fields α :=
  [("inputs", .texts p.inputs), ("input_meta", .list (p.inputNotes.map .object)),
    ("steps", .list (p.steps.map fun s => .object s.fields)), ("output_path", .text p.output),
    ("width", .int p.width), ("height", .int p.height), ("fps", .int p.fps),
    ("duration", .real p.duration), ("filters", .texts p.filters), ("meta", .object p.notes)]

end Plan

end Montage
