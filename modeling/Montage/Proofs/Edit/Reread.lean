/-
Timelines that are read back as they are, in exact arithmetic.

Most edits set fields without a check. They keep a timeline within its bounds all the same
(`Timeline.Valid.run`), and a number stands for something wherever it is set, so that no edit is
counted as a renewal (`Timeline.renewals_of_run`). So a timeline that edits lead to, if their
arguments are of their declared types, is read back from its fields as it is, and its shape
can be set without a change of anything else (`Timeline.TypedReachable.reads_back`).
-/
import Montage.Proofs.Edit.Aside
import Montage.Proofs.Edit.Bounds

namespace Montage

namespace Timeline

/-- The timelines that edits lead to whose arguments are of their declared types: the name that an
edit gives a project is a text. -/
inductive TypedReachable {α : Type} [Scalar α] : Timeline α → Prop where
  | empty (name : String) (ratio : AspectRatio) : TypedReachable (.empty name ratio)
  | step {t u : Timeline α} {ids rest : Ids} (e : Edit α) : TypedReachable t → e.NamesWithText →
      e.GivesNew t → Ids.Fresh ids rest t.names → e.apply t ids = .ok (u, rest) → TypedReachable u

variable {t u : Timeline Rat} {ids rest : Ids} {clipId : String}

/-! ## Renewals -/

theorem renewals_updateClip {changes : Fields Rat} (h : t.updateClip clipId changes = .ok u) :
    u.renewals = t.renewals := by
  unfold updateClip at h
  split at h
  · cases h
    rfl
  dsimp only at h
  split at h
  · cases h
  rw [bind_eq_ok] at h
  obtain ⟨changed, -, h⟩ := h
  rw [Transform.any_isUndefined, Bool.and_false] at h
  cases h
  rfl

theorem renewals_resizeClip {edge : Edge} {time : Rat} (h : t.resizeClip clipId edge time = .ok u) :
    u.renewals = t.renewals := by
  unfold resizeClip at h
  split at h
  · cases h
    rfl
  cases edge with
  | start => exact renewals_updateClip h
  | finish =>
    dsimp only at h
    split at h
    · cases h
      rfl
    · exact renewals_updateClip h

/-- No edit is counted where every number stands for something. -/
theorem renewals_of_run {e : Edit Rat} (hr : e.run t ids = .ok (u, rest)) :
    u.renewals = t.renewals := by
  cases e with
  | setAspectRatio ratio =>
    obtain ⟨v, -, rfl⟩ := Report.map_eq_valid.1 (Report.orRefuse_eq_ok.1 (eq_ok_of_map_pair hr))
    rfl
  | removeTrack trackId =>
    cases hr
    unfold removeTrack
    split
    · rfl
    · exact aside_renewals.dropRecords _ _
  | setProjectName | addTrack | repairLinks | removeOverlay | removeTransition | resetLook =>
    cases hr
    rfl
  | toggleTrackMute trackId =>
    cases hr
    exact aside_renewals.retuned (t.toggleTrackMute_cases trackId)
  | toggleTrackLock trackId =>
    cases hr
    exact aside_renewals.retuned (t.toggleTrackLock_cases trackId)
  | setTrackGain trackId gain =>
    cases hr
    exact aside_renewals.retuned (t.setTrackGain_cases trackId gain)
  | updateClip | trimClip | setClipAudioMuted => exact renewals_updateClip (eq_ok_of_map_pair hr)
  | resizeClip => exact renewals_resizeClip (eq_ok_of_map_pair hr)
  | addClip => exact aside_renewals.addClip (Except.ok.inj hr)
  | removeClip clipId =>
    cases hr
    exact aside_renewals.removeClip t clipId
  | moveClip clipId trackId start =>
    cases hr
    exact aside_renewals.moveClip t clipId trackId start
  | splitClip => exact aside_renewals.splitClip (Except.ok.inj hr)
  | detachAudio => exact aside_renewals.detachAudio hr
  | linkAudio videoId audioId =>
    cases hr
    exact aside_renewals.linkAudio t videoId audioId
  | unlinkAudio clipId =>
    cases hr
    exact aside_renewals.unlinkAudio t clipId
  | setTransition clipId kind duration side =>
    have hu := congrArg (fun r => r.1.renewals) (Except.ok.inj hr)
    exact hu.symm.trans (aside_renewals.setTransition t kind duration side ids)
  | setLook => exact aside_renewals.setLook (eq_ok_of_map_pair hr)
  | addOverlay text trackId start overlayId style =>
    rcases addOverlay_eq_ok.1 hr with
      ⟨-, rfl, -⟩ | ⟨t₁, ids₁, trackId, place, o, htrack, -, -, -, rfl, -⟩
    · rfl
    rcases overlayTrack_cases htrack with ⟨rfl, -⟩ | ⟨track, -, -, rfl⟩ <;> rfl
  | updateOverlay overlayId changes =>
    have hr := eq_ok_of_map_pair hr
    unfold updateOverlay at hr
    split at hr
    · cases hr
      rfl
    dsimp only at hr
    split at hr
    · cases hr
    rw [bind_eq_ok] at hr
    obtain ⟨new, -, hr⟩ := hr
    split at hr <;> cases hr <;> rfl
  | moveOverlay overlayId trackId =>
    cases hr
    unfold moveOverlay
    split
    · split <;> rfl
    · rfl

/-! ## Reading back -/

namespace TypedReachable

theorem reachable {α : Type} [Scalar α] {t : Timeline α} (h : t.TypedReachable) : t.Reachable := by
  induction h with
  | empty name ratio => exact .empty name ratio
  | step e _ _ hnew hfresh hr ih => exact ih.step e hnew hfresh hr

theorem valid (h : t.TypedReachable) : t.Valid := by
  induction h with
  | empty name ratio => exact ⟨⟨name, rfl⟩, by simp [Timeline.empty], by simp [Timeline.empty],
      by simp [Timeline.empty], by simp [Timeline.empty]⟩
  | step e _ htyped _ _ hr ih =>
    rw [Edit.apply_eq_run] at hr
    exact ih.run htyped hr

theorem renewals_eq_zero (h : t.TypedReachable) : t.renewals = 0 := by
  induction h with
  | empty => rfl
  | step e _ _ _ _ hr ih =>
    rw [Edit.apply_eq_run] at hr
    exact (renewals_of_run hr).trans ih

/-- **A timeline that edits lead to is read back as it is.** It is within the bounds of its fields,
so that a check of what is written of it succeeds and gives the same timeline, and so that its shape
can be set, which changes nothing else. -/
theorem reads_back (h : t.TypedReachable) :
    t.Valid ∧ Timeline.read t.fields = .valid t ∧
      ∀ (ratio : AspectRatio) (ids : Ids), (Edit.setAspectRatio (.text ratio.word)).apply t ids =
        .ok ({ t with aspectRatio := ratio }, ids) := by
  have hsame : { t with renewals := 0 } = t := by rw [← h.renewals_eq_zero]
  refine ⟨h.valid, (read_fields h.valid).trans (by rw [hsame]), fun ratio ids => ?_⟩
  rw [Edit.apply_eq_run, Edit.run, h.valid.setAspectRatio_eq]
  rfl

/-- An edit that issues no name. -/
theorem after (h : t.TypedReachable) (e : Edit Rat) (htyped : e.NamesWithText) (hnew : e.GivesNew t)
    (hids : (e.run t .start).map (·.2) = .ok .start) : (t.after e).TypedReachable := by
  obtain ⟨r, hr, hids⟩ := map_eq_ok.1 hids
  have hfresh : Ids.Fresh .start r.2 t.names := fun _ hle hlt => absurd (hids ▸ hlt) (not_lt.2 hle)
  rw [Timeline.after, hr]
  exact h.step e htyped hnew hfresh ((e.apply_eq_run t .start).trans hr)

end TypedReachable

/-- A still put before zero, made longer and brighter than can be and cut in two, on a track made
louder than can be. -/
def stillCut : Timeline Rat :=
  let t := (empty "cut" .wide).after (.addTrack .image none (some "v"))
  let t := t.after (.addClip "v" (take .image) (-1) (some "a"))
  let t := t.after (.resizeClip "a" .finish 6)
  let t := t.after (.setLook "a" [("brightness", .real 150)])
  let t := t.after (.splitClip "a" 2 (some "b"))
  t.after (.setTrackGain "v" 2)

theorem stillCut_typed : stillCut.TypedReachable := by
  have new {names : List String} {id : String} (h : names.contains id = false) :
      ∀ i ∈ some id, i ∉ names := by simpa using h
  have h : TypedReachable (empty "cut" .wide : Timeline Rat) := .empty "cut" .wide
  have h := h.after (.addTrack .image none (some "v")) trivial (new (by cbv)) (by cbv)
  have h := h.after (.addClip "v" (take .image) (-1) (some "a")) trivial (new (by cbv)) (by cbv)
  have h := h.after (.resizeClip "a" .finish 6) trivial trivial (by cbv)
  have h := h.after (.setLook "a" [("brightness", .real 150)]) trivial trivial (by cbv)
  have h := h.after (.splitClip "a" 2 (some "b")) trivial (new (by cbv)) (by cbv)
  exact h.after (.setTrackGain "v" 2) trivial trivial (by cbv)

theorem stillCut_reads_back :
    stillCut.allClips.map (fun c => (c.id, c.start, c.trimIn, c.visibleDuration)) =
      [("a", 0, 0, 2), ("b", 2, 2, 4)] ∧
      stillCut.looks.map (·.brightness) = [100] ∧ stillCut.tracks.map (·.gain) = [1] ∧
      Timeline.read stillCut.fields = .valid stillCut ∧
      (Edit.setAspectRatio (.text "1:1")).apply stillCut .start =
        .ok ({ stillCut with aspectRatio := .square }, .start) :=
  have h := stillCut_typed.reads_back
  ⟨by cbv, by cbv, by cbv, h.2.1, h.2.2 .square .start⟩

end Timeline

end Montage
