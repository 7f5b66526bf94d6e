/-
What runs the plans of jobs.

A runner answers the nth run of a plan with a conduct: it reports progress, may
cancel jobs, may look whether its own run has been cancelled, and ends with an
outcome.
-/
import Montage.Engine.Error
import Montage.Render.Job

namespace Montage

/-- How a run ends. -/
inductive Outcome where
  | produced (path : Option String)
  | cancelled
  | failed (e : EngineError)
  | crashed (c : Crash)
deriving BEq, DecidableEq, Repr

/-- What a run does, up to its end. -/
inductive Conduct (α : Type) where
  | report (fraction : α) (next : Conduct α)
  | cancel (chosen : Job α → Bool) (next : Conduct α)
  | look (cancelled otherwise : Conduct α)
  | finish (outcome : Outcome)

/-- What the nth run of a plan does, counted from zero. -/
abbrev Runner (α : Type) := Nat → Plan α → Conduct α

/-- One run in its usual order: progress, cancellations, a look at its own, the
end. -/
structure Script (α : Type) where
  progress : List α
  cancelsRunning : Bool
  honours : Bool
  /-- The end; none is the output of the plan. -/
  outcome : Option Outcome

namespace Script

variable {α : Type}

/-- A script read from its fields. How it ends is what `raised` makes of a failure, if it holds
one, or the output that it gives. -/
def read [Scalar α] (raised : Json α → Outcome) (fs : Fields α) : Script α where
  progress := (((fs.get? "progress").bind Json.elements?).getD []).filterMap fun j =>
    (Read.number j).value?
  cancelsRunning := fs.holds "cancel_self"
  honours := fs.holds "honour_cancel"
  outcome := match (fs.get? "raise").filter (!·.isVoid), fs.get? "output" with
    | some failure, _ => some (raised failure)
    | none, some (.text path) => some (.produced (some path))
    | none, some _ => some (.produced none)
    | none, none => none

/-- What a script does with a plan. -/
def conduct (s : Script α) (plan : Plan α) : Conduct α :=
  let ending : Conduct α := .finish (s.outcome.getD (.produced (some plan.output)))
  let looking := if s.honours then .look (.finish .cancelled) ending else ending
  let cancelling : Conduct α :=
    if s.cancelsRunning then .cancel (fun j => j.status == .running) looking else looking
  s.progress.foldr .report cancelling

/-- The runner of some scripts, the last of which is repeated. -/
def runner (scripts : List (Script α)) : Runner α := fun n plan =>
  match scripts[n]? <|> scripts.getLast? with
  | some s => s.conduct plan
  | none => .finish (.produced (some plan.output))

end Script

end Montage
