/-
One run of the engine.

The engine writes under an unfinished name beside its output, and the file is
moved to the output's name only when all went well; a run that fails, takes too
long or is called off removes it. What the process does and when it is called
off are given as a script, so that a run is a value.
-/
import Montage.Engine.Disk
import Montage.Engine.Error
import Montage.Engine.Progress
import Montage.Environment
import Montage.Json.Shown
import Montage.Text.Lines
import Montage.Text.Utf8

namespace Montage

/-- What happens while the run waits for something. -/
structure Moment (α : Type) where
  /-- How much time passes. -/
  elapsed : α
  /-- Whether the run is called off. -/
  cancels : Bool

/-- A line of the process's output, or a failure to read one. -/
structure OutputLine (α : Type) where
  moment : Moment α
  content : Except Crash String

/-- What the process does. -/
structure Subprocess (α : Type) where
  /-- Why it does not start. -/
  startError : Option String
  /-- What it writes to the file that its last argument names. -/
  writes : Option String
  lines : List (OutputLine α)
  /-- What happens at the end of its output. -/
  closing : Moment α
  /-- What happens while it is waited for. -/
  waiting : Moment α
  /-- Whether it is waited for in vain. -/
  expires : Bool
  /-- What is said of a wait of some length that was in vain. -/
  expiry : α → String
  /-- What it ends with; zero is success. -/
  exitCode : Json α
  /-- What it writes to its error output. -/
  errors : List Nat

/-- What a run is asked to do. -/
structure RunRequest (α : Type) where
  /-- The arguments of each step; only the first step is run. -/
  steps : List (List String)
  output : String
  duration : α
  /-- How many seconds the run may take. -/
  timeout : Json α
  stage : String
  hint : Option String
  /-- Whether the run is called off before it starts. -/
  cancelled : Bool
  /-- Who is told of progress: given all fractions so far, the latest first, it may
  fail. -/
  listener : Option (List α → Option Crash)

/-- Why a run fails. -/
inductive RunFailure where
  | engine (e : EngineError)
  | cancelled
  | disk (f : DiskFailure)
  | namelessOutput (path : Path)
  | timeTooLarge
  | illTypedTimeout
  | crash (c : Crash)
deriving BEq, DecidableEq, Repr

/-- What has been seen of a run. -/
structure Trace (α : Type) where
  disk : Disk
  now : α
  cancelled : Bool
  /-- The arguments that the process was started with. -/
  started : Option (List String)
  /-- The fractions reported, the latest first. -/
  reported : List α
  terminated : Bool
  killed : Nat
  waits : Nat
  waitLimit : Option α
  closed : Bool

variable {α : Type} [Scalar α]

namespace RunRequest

/-- An engine error of the run. -/
def error (r : RunRequest α) (reason : String) : EngineError := ⟨reason, r.stage, r.hint, none⟩

end RunRequest

namespace Trace

/-- The trace after a moment. -/
def pass (t : Trace α) (m : Moment α) : Trace α :=
  { t with now := t.now + m.elapsed, cancelled := t.cancelled || m.cancels }

/-- Whether the run is called off or out of time. -/
def isOver (t : Trace α) (deadline : α) : Bool := t.cancelled || decide (deadline < t.now)

/-- The trace after the process was stopped by force. -/
def kill (t : Trace α) : Trace α := { t with killed := t.killed + 1, waits := t.waits + 1 }

/-- The trace after a fraction was reported, and whether that failed. -/
def report (t : Trace α) (r : RunRequest α) (fraction : α) : Trace α × Option Crash :=
  match r.listener with
  | none => (t, none)
  | some tell =>
    let t := { t with reported := fraction :: t.reported }
    (t, tell t.reported)

/-- The fields of what has been seen, the disk apart. -/
def fields (t : Trace α) : Fields α :=
  [("args", match t.started with | some arguments => .texts arguments | none => .null),
    ("progress", .list (t.reported.reverse.map .real)), ("terminated", .bool t.terminated),
    ("killed", .int t.killed), ("waits", .int t.waits), ("closed", .bool t.closed)] ++
    t.waitLimit.toList.map fun x => ("wait_timeout", .real x)

end Trace

namespace Engine

/-- The lines of the process, read until they end, fail, or the run is over. -/
def readLines (r : RunRequest α) (deadline : α) :
    Trace α → List (OutputLine α) → Trace α × Option RunFailure
  | t, [] => (t, none)
  | t, line :: rest =>
    let t := t.pass line.moment
    match line.content with
    | .error c => (t, some (.crash c))
    | .ok content =>
      if t.isOver deadline then (t, none)
      else
        match progress? content r.duration with
        | .error _ => (t, some .timeTooLarge)
        | .ok none => readLines r deadline t rest
        | .ok (some fraction) =>
          match t.report r fraction with
          | (t, some c) => (t, some (.crash c))
          | (t, none) => readLines r deadline t rest

/-- The failure of a run after which its unfinished file is removed. -/
def discard (t : Trace α) (unfinished : Path) (failure : RunFailure) :
    Trace α × Except RunFailure String :=
  match t.disk.removeIfThere unfinished with
  | .ok disk => ({ t with disk }, .error failure)
  | .error e => (t, .error (.disk e))

/-- The end of a run whose process came to an end. -/
def conclude (r : RunRequest α) (p : Subprocess α) (deadline : α) (output unfinished : Path)
    (t : Trace α) : Trace α × Except RunFailure String :=
  if t.cancelled then discard t unfinished .cancelled
  else if deadline < t.now then
    discard t unfinished (.engine (r.error ("ffmpeg timed out after " ++ r.timeout.named ++ "s")))
  else if p.exitCode != .int 0 then
    let tail := lastLines 10 (Utf8.decode p.errors)
    let reason := "ffmpeg failed (code " ++ p.exitCode.named ++ "):\n" ++ tail
    discard t unfinished (.engine { r.error reason with tail := some tail })
  else
    match t.disk.move unfinished output with
    | .error e => (t, .error (.disk e))
    | .ok disk =>
      match ({ t with disk } : Trace α).report r 1.0 with
      | (t, some c) => (t, .error (.crash c))
      | (t, none) => (t, .ok output.text)

/-- A run whose process has started. -/
def attend (r : RunRequest α) (p : Subprocess α) (deadline : α) (output unfinished : Path)
    (t : Trace α) : Trace α × Except RunFailure String :=
  match readLines r deadline t p.lines with
  | (t, some failure) => discard { t.kill with closed := true } unfinished failure
  | (t, none) =>
    let t := t.pass p.closing
    let t := { t with terminated := t.terminated || t.isOver deadline }
    let limit := Scalar.larger 1.0 (deadline - t.now)
    let t := { t with waits := t.waits + 1, waitLimit := some limit, closed := true }
    let t := t.pass p.waiting
    if p.expires then
      discard t.kill unfinished (.engine (r.error ("ffmpeg timed out: " ++ p.expiry limit)))
    else conclude r p deadline output unfinished t

/-- The arguments with the unfinished file in the place of the output at their end. -/
def redirect (arguments : List String) (output : String) (unfinished : Path) : List String :=
  if arguments.getLast? == some output then arguments.dropLast ++ [unfinished.text]
  else arguments

/-- The trace after the process was started, and what stopped it. -/
def start (r : RunRequest α) (p : Subprocess α) (arguments : List String) (t : Trace α) :
    Trace α × Option RunFailure :=
  let failed (reason : String) : RunFailure :=
    .engine (r.error ("ffmpeg failed to start: " ++ reason))
  match p.startError with
  | some reason => (t, some (failed reason))
  | none =>
    let t := { t with started := some arguments }
    match p.writes, arguments.getLast? with
    | some content, some target =>
      match t.disk.write (.ofText target) content with
      | .ok disk => ({ t with disk }, none)
      | .error f => (t, some (if f.cause.isOfSystem then failed f.message else .disk f))
    | _, _ => (t, none)

/-- A run from a time on. -/
def run (r : RunRequest α) (p : Subprocess α) (disk : Disk) (now : α) :
    Trace α × Except RunFailure String :=
  let t : Trace α := ⟨disk, now, r.cancelled, none, [], false, 0, 0, none, false⟩
  match r.steps with
  | [] => (t, .error (.engine (r.error "render plan has no steps")))
  | [] :: _ => (t, .error (.engine (r.error "ffmpeg args missing")))
  | arguments :: _ =>
    let output := Path.ofText r.output
    match t.disk.ensureDirectories output.parent output.names.length with
    | .error f => (t, .error (.disk f))
    | .ok disk =>
      let t := { t with disk }
      match output.unfinished? with
      | none => (t, .error (.namelessOutput output))
      | some unfinished =>
        match r.timeout.measure with
        | .error .tooLarge => (t, .error .timeTooLarge)
        | .error .illTyped => (t, .error .illTypedTimeout)
        | .ok timeout =>
          match start r p (redirect arguments r.output unfinished) t with
          | (t, some failure) => (t, .error failure)
          | (t, none) => attend r p (now + timeout) output unfinished t

end Engine

end Montage
