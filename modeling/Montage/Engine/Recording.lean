/-
Runs of the engine put together from data.

Fields say what the process prints and when, how it ends and what it leaves behind, and what
a run of it is asked to do. How a crash is called is up to whoever knows the words for
crashes (`Crashes`).
-/
import Montage.Engine.Run

namespace Montage

/-- The crash that a word stands for, and what it says; without a word it is that of data of
the wrong sort. -/
abbrev Crashes (α : Type) := Option (Json α) → String → Crash

variable {α : Type} [Scalar α]

/-- A moment in which nothing happens. -/
def Moment.quiet : Moment α := ⟨0.0, false⟩

/-- A line that is printed at once, or an object with a line and what happens before it. A
cancellation counts only if it is heard. -/
def OutputLine.ofData (crashes : Crashes α) (heard : Bool) (j : Json α) : OutputLine α :=
  let fs : Fields α := match j with
    | .object fs => fs
    | j => [("line", j)]
  let content : Except Crash String :=
    if fs.holds "raise" then .error (crashes (fs.get? "raise") "stream broke")
    else match (fs.get? "line").getD (.text "") with
      | .text s => .ok (s ++ "\n")
      | j => .error (crashes none j.named)
  match ((fs.get? "dt").getD (.int 0)).measure with
  | .ok dt => ⟨⟨dt, fs.holds "cancel" && heard⟩, content⟩
  | .error _ => ⟨.quiet, .error (crashes none "")⟩

/-- The bytes of a list of numbers. -/
def bytesOf (j : Json α) : List Nat := (j.elements?.getD []).map fun b => (b.whole?.getD 0).toNat

/-- What a process does that is described by fields. Unless they say otherwise it writes its
output and ends well. -/
def Subprocess.ofFields (crashes : Crashes α) (fs : Fields α) : Subprocess α :=
  let any (name : String) : Json α := (fs.get? name).getD .null
  { startError := if fs.holds "start_error" then some (any "start_error").named else none
    writes := if fs.has "writes" && !fs.holds "writes" then none else some "x"
    lines := ((any "lines").elements?.getD []).map (OutputLine.ofData crashes !(fs.holds "no_event"))
    closing := .quiet
    waiting := .quiet
    expires := fs.holds "wait_expires"
    expiry := fun seconds => "Command 'ffmpeg' timed out after " ++ Scalar.text seconds ++ " seconds"
    exitCode := (fs.get? "returncode").getD (.int 0)
    errors := (match any "stderr" with | .text s => Utf8.encode s | _ => []) ++
      bytesOf (any "stderr_bytes") }

/-- What is said at a stage of some options, and the hint that they give. What is no text is
shown as one; a hint that holds nothing is none. -/
def stageAndHint (options : Fields α) : String × Option String :=
  let hint := match options.get? "hint" with
    | some (.text s) => some s
    | some j => if j.isVoid then none else some j.named
    | none => none
  (((options.get? "stage").getD (.text "ffmpeg")).named, hint)

/-- The fields of an engine error, without those options that are no text. -/
def EngineError.fieldsWith (e : EngineError) (options : Fields α) : Fields α :=
  e.fields.filter fun f => match options.get? f.1 with
    | some (.text _) => true
    | some _ => false
    | none => true

/-- A run of a process described by fields, with some options, within some time. -/
def RunRequest.ofFields (steps : List (List String)) (output : String) (duration : α)
    (timeout : Json α) (options fs : Fields α) : RunRequest α :=
  let (stage, hint) := stageAndHint options
  { steps, output, duration, timeout, stage, hint
    cancelled := fs.holds "cancel_before" && !fs.holds "no_event"
    listener := if fs.holds "no_progress" then none else some fun _ => none }

end Montage
