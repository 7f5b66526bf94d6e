/-
The clips that there are before and after an edit, in any arithmetic.

An edit that puts a clip on the timeline adds one id that was not there, unless it
leaves the timeline alone. Taking a clip or a track away takes its ids along. No other
edit adds or drops a clip (`Timeline.Linked.counts`).
-/
import Montage.Proofs.Edit.Attached

namespace Montage

variable {α : Type}

/-- Whether an edit may put a new clip on a timeline. -/
def Edit.adds : Edit α → Bool
  | .addClip .. | .splitClip .. | .detachAudio .. => true
  | _ => false

/-- The ids of the clips that an edit takes away. -/
def Edit.taken (t : Timeline α) : Edit α → List String
  | .removeClip clipId => if (t.editable? clipId).isSome then [clipId] else []
  | .removeTrack trackId => ((t.findTrack trackId).map fun track => track.clips.map (·.id)).getD []
  | _ => []

/-- The ids of the clips are those there were, with a new one, or without those taken away. -/
def Edit.Counts (e : Edit α) (t u : Timeline α) : Prop :=
  (e.adds = true ∧ ∃ id ∉ t.clipIds, u.clipIds.Perm (id :: t.clipIds)) ∨
    (e.adds = true → u = t) ∧ t.clipIds.Perm (e.taken t ++ u.clipIds)

/-- An edit that adds nothing. -/
theorem Edit.Counts.of_taken {e : Edit α} {t u : Timeline α} (hadds : e.adds = false)
    (hp : t.clipIds.Perm (e.taken t ++ u.clipIds)) : e.Counts t u :=
  .inr ⟨fun h => by simp [hadds] at h, hp⟩

/-- An edit that neither adds nor takes away. -/
theorem Edit.Counts.of_perm {e : Edit α} {t u : Timeline α} (hadds : e.adds = false)
    (htaken : e.taken t = []) (hp : u.clipIds.Perm t.clipIds) : e.Counts t u :=
  .of_taken hadds (by simpa [htaken] using hp.symm)

namespace Timeline

variable {t u : Timeline α} {track : Track α} {ids rest : Ids} {clipId trackId : String}
  {given : Option String} {e : Edit α}

/-! ## The ids of the clips under single steps -/

theorem clipIds_perm_of_bonds {bs : List Bond} (h : t.bonds.Perm bs) :
    t.clipIds.Perm (bs.map (·.id)) := by
  rw [clipIds, ← bonds_ids]
  exact h.map _

theorem clipIds_perm_of_bonds_perm (h : u.bonds.Perm t.bonds) : u.clipIds.Perm t.clipIds :=
  (clipIds_perm_of_bonds h).trans (.of_eq (bonds_ids t))

theorem clipIds_of_tracks_eq (h : u.tracks = t.tracks) : u.clipIds = t.clipIds := by
  simp [clipIds, allClips, h]

theorem clipIds_mapClips {f : Clip α → Clip α} (hf : ∀ c, (f c).id = c.id) :
    (t.mapClips f).clipIds = t.clipIds := by
  simp [clipIds, Function.comp_def, hf]

theorem clipIds_unlink (removed : List String) (b : Bool) :
    (t.mapClips (Clip.unlink removed b)).clipIds = t.clipIds := clipIds_mapClips fun _ => rfl

theorem clipIds_dropRecords (t : Timeline α) (removed : List String) :
    (t.dropRecords removed).clipIds = t.clipIds := by
  rw [clipIds, ← bonds_ids, bonds_dropRecords, List.map_map]
  exact bonds_ids t

theorem clipIds_unlinkAudio (t : Timeline α) (clipId : String) :
    (t.unlinkAudio clipId).clipIds = t.clipIds := by
  unfold unlinkAudio
  split
  · rfl
  · exact clipIds_mapClips fun c => by split <;> rfl

theorem clipIds_linkAudio (t : Timeline α) (videoId audioId : String) :
    (t.linkAudio videoId audioId).clipIds = t.clipIds := by
  unfold linkAudio
  split
  · refine (clipIds_mapClips fun c => ?_).trans ?_
    · split
      · rfl
      · split <;> rfl
    · rw [clipIds_unlinkAudio, clipIds_unlinkAudio]
  · rfl

theorem clipIds_setAspectRatio [Scalar α] {ratio : Json α}
    (hu : t.setAspectRatio ratio = .valid u) : u.clipIds = t.clipIds := by
  unfold Timeline.setAspectRatio at hu
  rw [Report.map_eq_valid] at hu
  obtain ⟨v, hv, rfl⟩ := hu
  have hbonds := congrArg (List.map Bond.id) (bonds_of_read hv).2
  rwa [bonds_ids, bonds_ids] at hbonds

namespace Linked

/-! ## Clips that are taken away -/

theorem counts_removeTrack (h : t.Linked) (trackId : String) :
    t.clipIds.Perm (Edit.taken t (.removeTrack trackId : Edit α) ++ (t.removeTrack trackId).clipIds) := by
  simp only [Edit.taken]
  unfold Timeline.removeTrack
  split
  · next hnone => simp [hnone]
  next track htrack =>
  obtain ⟨ht, rfl⟩ := mem_of_findTrack htrack
  rw [htrack, clipIds_dropRecords]
  have hgone : t.bonds.Perm (track.clips.map Clip.bond ++ bonds { t with
      tracks := t.tracks.filter (·.id != track.id)
      overlays := t.overlays.filter (·.trackId != track.id) }) :=
    bonds_removeTrack h.trackIds ht rfl
  have hids := clipIds_perm_of_bonds hgone
  rw [List.map_append, List.map_map, bonds_ids] at hids
  exact hids

theorem counts_removeClip (h : t.Linked) (clipId : String) :
    t.clipIds.Perm (Edit.taken t (.removeClip clipId : Edit α) ++ (t.removeClip clipId).clipIds) := by
  cases hclip : t.editable? clipId with
  | none => simp [Edit.taken, Timeline.removeClip, hclip]
  | some found =>
    obtain ⟨ht, -, hc, rfl⟩ := editable?_eq_some hclip
    have hids := clipIds_perm_of_bonds (bonds_take h.trackIds h.clipIds ht hc)
    rw [List.map_cons, bonds_ids] at hids
    simp only [Edit.taken, Timeline.removeClip, hclip, clipIds_dropRecords]
    exact hids

variable [Scalar α]

/-! ## Clips that are new -/

theorem counts_addClip (h : t.Linked) {asset : Asset α} {start : α}
    (hgiven : ∀ id ∈ given, id ∉ t.clipIds) (hfresh : Ids.Fresh ids rest t.clipIds)
    (hu : t.addClip trackId asset start given ids = (u, rest)) :
    (Edit.addClip trackId asset start given : Edit α).Counts t u := by
  rcases addClip_cases hu with ⟨rfl, -⟩ | ⟨track, ht, -, -, rfl, rfl⟩
  · exact .inr ⟨fun _ => rfl, .refl _⟩
  · refine .inl ⟨rfl, _, hfresh.choose hgiven, ?_⟩
    refine (clipIds_perm_of_bonds (bonds_place h.trackIds ht _)).trans (.of_eq ?_)
    rw [List.map_cons, bonds_ids]
    rfl

theorem counts_splitClip (h : t.Linked) {time : α} (hgiven : ∀ id ∈ given, id ∉ t.clipIds)
    (hfresh : Ids.Fresh ids rest t.clipIds) (hu : t.splitClip clipId time given ids = (u, rest)) :
    (Edit.splitClip clipId time given : Edit α).Counts t u := by
  rcases splitClip_cases hu with
    ⟨rfl, -⟩ | ⟨track, ht, clip, hc, rfl, -, rfl, transitions, -, rfl⟩
  · exact .inr ⟨fun _ => rfl, .refl _⟩
  refine .inl ⟨rfl, _, hfresh.choose hgiven, ?_⟩
  generalize (ids.choose given).1 = id
  obtain ⟨others, hbonds, hcut⟩ := bonds_cut h.trackIds h.clipIds ht hc
    (headPart clip time) (tailPart clip id time)
  -- The part before the cut keeps the id, and the other one has the new one.
  have hparts := (clipIds_perm_of_bonds hcut).trans
    (.trans (.swap _ _ _) ((clipIds_perm_of_bonds hbonds).symm.cons id))
  dsimp only
  split
  · exact (List.Perm.of_eq (clipIds_unlink [clip.id] false)).trans hparts
  · exact hparts

theorem counts_detachAudio (h : t.Linked) (htracks : Ids.Fresh ids rest (t.tracks.map (·.id)))
    (hgiven : ∀ id ∈ given, id ∉ t.clipIds) (hfresh : Ids.Fresh ids rest t.clipIds)
    (hu : t.detachAudio clipId given ids = .ok (u, rest)) :
    (Edit.detachAudio clipId given : Edit α).Counts t u := by
  rcases detachAudio_cases hu with
    ⟨rfl, -⟩ | ⟨video, t₁, ids₁, track, audio, -, htrack, rfl, haudio, rfl⟩
  · exact .inr ⟨fun _ => rfl, .refl _⟩
  rw [h.repairLinks_eq, ite_self] at htrack
  obtain ⟨h₁, ht, hbonds⟩ := h.audioTrack (htracks.of_le_right (ids₁.le_choose given)) htrack
  refine .inl ⟨rfl, _, (hfresh.of_le_left (audioTrack_le htrack)).choose hgiven, ?_⟩
  rw [clipIds_mapClips fun c => by split <;> rfl]
  refine (clipIds_perm_of_bonds (bonds_place h₁.trackIds ht audio)).trans (.of_eq ?_)
  rw [List.map_cons, hbonds, bonds_ids]
  exact congrArg (· :: t.clipIds) (Clip.kept_of_recheck haudio).id

/-! ## Every edit -/

/-- **Every edit keeps count of the clips.** -/
theorem counts (h : t.Linked) (hgiven : e.GivesNew t) (hfresh : Ids.Fresh ids rest t.names)
    (hr : e.run t ids = .ok (u, rest)) : e.Counts t u := by
  have htracks := hfresh.of_subset t.trackIds_subset_names
  have hclips := hfresh.of_subset t.clipIds_subset_names
  have hexchanged : u = t ∨ t.Exchanged u → u.clipIds.Perm t.clipIds := by
    rintro (rfl | he)
    · exact .refl _
    · exact clipIds_perm_of_bonds_perm (bonds_perm_of_exchanged h.trackIds h.clipIds he)
  have hretuned : u = t ∨ t.Retuned u → u.clipIds.Perm t.clipIds := by
    rintro (rfl | ⟨track, ht, _, _, _, -, rfl⟩)
    · exact .refl _
    · exact clipIds_perm_of_bonds_perm (bonds_perm_of_replaceTrack h.trackIds ht rfl (.refl _))
  have hsame (he : u.tracks = t.tracks) : u.clipIds.Perm t.clipIds :=
    .of_eq (clipIds_of_tracks_eq he)
  cases e with
  | setProjectName name =>
    cases hr
    exact .of_perm rfl rfl (.refl _)
  | setAspectRatio ratio =>
    have hr := Report.orRefuse_eq_ok.1 (eq_ok_of_map_pair hr)
    exact .of_perm rfl rfl (.of_eq (clipIds_setAspectRatio hr))
  | addTrack kind name given =>
    obtain ⟨track, hblank, he⟩ := t.addTrack_cases kind name given ids
    rw [Edit.run, he] at hr
    cases hr
    exact .of_perm rfl rfl (clipIds_perm_of_bonds_perm (.of_eq (bonds_append hblank rfl)))
  | removeTrack trackId =>
    cases hr
    exact .of_taken rfl (h.counts_removeTrack trackId)
  | toggleTrackMute trackId =>
    cases hr
    exact .of_perm rfl rfl (hretuned (t.toggleTrackMute_cases trackId))
  | toggleTrackLock trackId =>
    cases hr
    exact .of_perm rfl rfl (hretuned (t.toggleTrackLock_cases trackId))
  | setTrackGain trackId gain =>
    cases hr
    exact .of_perm rfl rfl (hretuned (t.setTrackGain_cases trackId gain))
  | addClip trackId asset start given =>
    exact h.counts_addClip hgiven hclips (Except.ok.inj hr)
  | removeClip clipId =>
    cases hr
    exact .of_taken rfl (h.counts_removeClip clipId)
  | updateClip clipId changes =>
    have hr := eq_ok_of_map_pair hr
    exact .of_perm rfl rfl (hexchanged (updateClip_cases hr))
  | trimClip clipId trimIn trimOut =>
    have hr := eq_ok_of_map_pair hr
    exact .of_perm rfl rfl (hexchanged (updateClip_cases hr))
  | resizeClip clipId edge time =>
    have hr := eq_ok_of_map_pair hr
    exact .of_perm rfl rfl (hexchanged (resizeClip_cases hr))
  | moveClip clipId trackId start =>
    cases hr
    exact .of_perm rfl rfl (clipIds_perm_of_bonds_perm (h.moveClip_bonds clipId trackId start))
  | splitClip clipId time given =>
    exact h.counts_splitClip hgiven hclips (Except.ok.inj hr)
  | detachAudio videoId given =>
    exact h.counts_detachAudio htracks hgiven hclips hr
  | linkAudio videoId audioId =>
    cases hr
    exact .of_perm rfl rfl (.of_eq (t.clipIds_linkAudio videoId audioId))
  | unlinkAudio clipId =>
    cases hr
    exact .of_perm rfl rfl (.of_eq (t.clipIds_unlinkAudio clipId))
  | setClipAudioMuted clipId muted =>
    have hr := eq_ok_of_map_pair hr
    exact .of_perm rfl rfl (hexchanged (updateClip_cases hr))
  | repairLinks =>
    cases hr
    rw [h.repairLinks_eq]
    exact .of_perm rfl rfl (.refl _)
  | addOverlay text trackId start overlayId style =>
    rcases addOverlay_cases hr with he | ⟨track, hblank, -, he⟩
    · exact .of_perm rfl rfl (hsame he)
    · exact .of_perm rfl rfl (clipIds_perm_of_bonds_perm (.of_eq (bonds_append hblank he)))
  | updateOverlay overlayId changes =>
    have hr := eq_ok_of_map_pair hr
    exact .of_perm rfl rfl (hsame (updateOverlay_tracks hr))
  | removeOverlay overlayId =>
    cases hr
    exact .of_perm rfl rfl (.refl _)
  | moveOverlay overlayId trackId =>
    cases hr
    exact .of_perm rfl rfl (hsame (t.moveOverlay_tracks overlayId trackId))
  | setTransition clipId kind duration side =>
    have hu := congrArg (fun r => r.1.tracks) (Except.ok.inj hr)
    exact .of_perm rfl rfl (hsame (hu.symm.trans (t.setTransition_tracks kind duration side ids)))
  | removeTransition clipId side =>
    cases hr
    exact .of_perm rfl rfl (.refl _)
  | setLook clipId params =>
    have hr := eq_ok_of_map_pair hr
    exact .of_perm rfl rfl (hsame (setLook_tracks hr))
  | resetLook clipId =>
    cases hr
    exact .of_perm rfl rfl (.refl _)

end Linked

end Timeline

end Montage
