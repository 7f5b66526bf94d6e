/-
Edits of transitions and looks.

A clip has at most one transition a side and one look: setting one again
replaces it.
-/
import Montage.Edit.Basic

namespace Montage.Timeline

variable {α ι : Type} [Scalar α] [BEq ι]

/-- The transition at one side of a clip. -/
def transitionAt (t : Timeline α ι) (clipId : ι) (side : Side) : Option (Transition α ι) :=
  t.transitions.find? fun x => x.clipId == clipId && x.side == side

/-- The timeline with a transition at one side of a clip. -/
def setTransition (t : Timeline α ι) (clipId : ι) (kind : TransitionKind) (duration : α)
    (side : Side) (ids : Ids) : Timeline α ι × Ids :=
  let made (id : String) : Transition α ι :=
    ⟨id, clipId, kind, Scalar.larger minTransitionDuration duration, side⟩
  if (t.findClip clipId).isNone then (t, ids)
  else
    match t.transitionAt clipId side with
    | some old =>
      ({ t with transitions := t.transitions.map fun x =>
        if x.id == old.id then made old.id else x }, ids)
    | none => ({ t with transitions := t.transitions ++ [made ids.next] }, ids.rest)

/-- The timeline without the transitions of a clip at one side, or at both. -/
def removeTransition (t : Timeline α ι) (clipId : ι) (side : Option Side) : Timeline α ι :=
  { t with transitions := t.transitions.filter fun x =>
    !(x.clipId == clipId && (side.isNone || some x.side == side)) }

/-- The timeline with a look for a clip, in place of its last one. -/
def setLook [Label ι α] (t : Timeline α ι) (clipId : ι) (params : Fields α) : Except Refusal (Timeline α ι) :=
  if (t.findClip clipId).isNone then .ok t
  else do
    let look ← (Look.read (params.put "clip_id" (Label.data clipId))).orRefuse
    return { t with looks := t.looks.filter (·.clipId != clipId) ++ [look] }

def resetLook (t : Timeline α ι) (clipId : ι) : Timeline α ι :=
  { t with looks := t.looks.filter (·.clipId != clipId) }

end Montage.Timeline
