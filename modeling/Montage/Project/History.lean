/-
Projects: a timeline with its past and its future.

An edit that changes the timeline puts it on the past and forgets the future;
undo and redo move along the two. The past keeps its latest timelines up to a
limit.
-/
import Montage.Timeline.Basic

namespace Montage

/-- One project. The past and the future start with the nearest timeline. -/
structure Project (α : Type) (ι : Type := String) where
  id : String
  current : Timeline α ι
  past : List (Timeline α ι)
  future : List (Timeline α ι)
deriving Repr

namespace Project

variable {α ι : Type}

/-- A project without history. -/
def new (id : String) (t : Timeline α ι) : Project α ι := ⟨id, t, [], []⟩

def canUndo (p : Project α ι) : Bool := !p.past.isEmpty

def canRedo (p : Project α ι) : Bool := !p.future.isEmpty

/-- The nearest timelines of a past, as many as a limit says; a limit that is not above
zero says how many of the farthest go. -/
def keep (limit : Int) (past : List (Timeline α ι)) : List (Timeline α ι) :=
  if 0 < limit then past.take limit.toNat else past.take (past.length - limit.natAbs)

/-- The project after an edit. An edit that changes nothing is no step. -/
def commit [Scalar α] [BEq ι] (limit : Int) (p : Project α ι) (after : Timeline α ι) : Project α ι :=
  if after == p.current then p
  else { p with current := after, past := keep limit (p.current :: p.past), future := [] }

/-- The project after a command, which gives a timeline and what comes with it. A command
that is refused gives no project. -/
def apply [Scalar α] [BEq ι] {ε κ : Type} (limit : Int) (p : Project α ι)
    (command : Timeline α ι → Except ε (Timeline α ι × κ)) : Except ε (Project α ι × κ) :=
  (command p.current).map fun (after, more) => (p.commit limit after, more)

/-- The project after an edit while the limit of its past is no whole number: its timeline
stays, though it has been put on the past. -/
def stall [Scalar α] [BEq ι] (p : Project α ι) (after : Timeline α ι) : Project α ι :=
  if after == p.current then p else { p with past := p.current :: p.past }

/-- The fields of a project in short: how far it can go back and forward. -/
def summary (p : Project α ι) : Fields α :=
  [("id", .text p.id), ("undo", .int p.past.length), ("redo", .int p.future.length),
    ("can", .list [.bool p.canUndo, .bool p.canRedo])]

/-- The project one step back. -/
def undo (p : Project α ι) : Project α ι :=
  match p.past with
  | [] => p
  | t :: past => { p with current := t, past, future := p.current :: p.future }

/-- The project one step forward. -/
def redo (p : Project α ι) : Project α ι :=
  match p.future with
  | [] => p
  | t :: future => { p with current := t, future, past := p.current :: p.past }

end Project

end Montage
