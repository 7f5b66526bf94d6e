/-
What edits of clips, tracks and their records leave alone.

A part of a timeline is aside (`Timeline.Aside`) if it does not look at the tracks, the transitions
and the looks; the overlays are such a part, and so is the number of renewals. An edit that
changes no more than these leaves it as it is.
-/
import Montage.Proofs.Edit.Steps

namespace Montage

namespace Timeline

variable {α γ : Type}

/-- Whether a part of a timeline does not look at its tracks, its transitions and its looks. -/
def Aside (part : Timeline α → γ) : Prop :=
  ∀ (t : Timeline α) tracks transitions looks,
    part { t with tracks, transitions, looks } = part t

theorem aside_overlays : Aside (overlays : Timeline α → List (Overlay α)) := fun _ _ _ _ => rfl

theorem aside_renewals : Aside (renewals : Timeline α → Nat) := fun _ _ _ _ => rfl

namespace Aside

variable {part : Timeline α → γ} {t u : Timeline α} {track : Track α} {ids rest : Ids}
  {clipId trackId : String} {given : Option String}

theorem dropRecords (h : Aside part) (t : Timeline α) (removed : List String) :
    part (t.dropRecords removed) = part t := by
  unfold Timeline.dropRecords
  split
  · rfl
  · exact h t _ _ _

theorem removeClip (h : Aside part) (t : Timeline α) (clipId : String) :
    part (t.removeClip clipId) = part t := by
  unfold Timeline.removeClip
  split
  · rfl
  · exact (h.dropRecords _ _).trans (h t _ _ _)

theorem unlinkAudio (h : Aside part) (t : Timeline α) (clipId : String) :
    part (t.unlinkAudio clipId) = part t := by
  unfold Timeline.unlinkAudio
  split
  · rfl
  · exact h t _ _ _

theorem linkAudio (h : Aside part) (t : Timeline α) (videoId audioId : String) :
    part (t.linkAudio videoId audioId) = part t := by
  unfold Timeline.linkAudio
  split
  · exact (h _ _ _ _).trans ((h.unlinkAudio _ audioId).trans (h.unlinkAudio t videoId))
  · rfl

variable [Scalar α]

/-- A part that does not look at the renewals either is left alone when a clip is exchanged. -/
theorem exchanged (h : Aside part) (hrenewed : ∀ (t : Timeline α) b, part (t.renewed b) = part t)
    (hu : u = t ∨ t.Exchanged u) : part u = part t := by
  rcases hu with rfl | hu
  · rfl
  · cases hu <;> exact (hrenewed _ _).trans (h t _ _ _)

theorem retuned (h : Aside part) (hu : u = t ∨ t.Retuned u) : part u = part t := by
  rcases hu with rfl | ⟨track, -, muted, locked, gain, -, rfl⟩
  · rfl
  · exact h t _ _ _

theorem addClip (h : Aside part) {asset : Asset α} {start : α}
    (hu : t.addClip trackId asset start given ids = (u, rest)) : part u = part t := by
  rcases addClip_cases hu with ⟨rfl, -⟩ | ⟨track, -, -, -, -, rfl⟩
  · rfl
  · exact h t _ _ _

theorem moveClip (h : Aside part) (t : Timeline α) (clipId trackId : String) (start : α) :
    part (t.moveClip clipId trackId start) = part t := by
  rcases moveClip_cases t clipId trackId start with
    he | ⟨source, -, target, -, clip, -, -, -, -, ⟨-, he⟩ | ⟨-, he⟩⟩ <;> rw [he]
  · exact h t _ _ _
  · exact h t _ _ _

theorem splitClip (h : Aside part) {time : α}
    (hu : t.splitClip clipId time given ids = (u, rest)) : part u = part t := by
  rcases splitClip_cases hu with ⟨rfl, -⟩ | ⟨track, -, clip, -, -, -, -, transitions, -, rfl⟩
  · rfl
  · dsimp only
    split <;> exact h t _ _ _

theorem audioTrack (h : Aside part) (hu : t.audioTrack ids = (u, rest, some track)) :
    part u = part t := by
  obtain ⟨found, -, ⟨-, -, he⟩ | ⟨-, he⟩⟩ := t.audioTrack_cases ids <;>
    rw [he] at hu <;> cases hu
  · rfl
  · exact h t _ _ _

theorem detachAudio (h : Aside part) (hu : t.detachAudio clipId given ids = .ok (u, rest)) :
    part u = part t := by
  rcases detachAudio_cases hu with
    ⟨rfl, -⟩ | ⟨video, t₁, ids₁, track, audio, -, htrack, -, -, rfl⟩
  · rfl
  · refine (h t₁ _ _ _).trans ((h.audioTrack htrack).trans ?_)
    split
    · exact h t _ _ _
    · rfl

theorem setTransition (h : Aside part) (t : Timeline α) (kind : TransitionKind) (duration : α)
    (side : Side) (ids : Ids) : part (t.setTransition clipId kind duration side ids).1 = part t := by
  unfold Timeline.setTransition
  dsimp only
  split
  · rfl
  · split <;> exact h t _ _ _

theorem setLook (h : Aside part) {params : Fields α} (hu : t.setLook clipId params = .ok u) :
    part u = part t := by
  unfold Timeline.setLook at hu
  split at hu
  · cases hu
    rfl
  · rw [bind_eq_ok] at hu
    obtain ⟨_, -, hu⟩ := hu
    cases hu
    exact h t _ _ _

end Aside

end Timeline

end Montage
