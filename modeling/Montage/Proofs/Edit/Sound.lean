/-
Every edit keeps the tracks sound, in exact arithmetic: on each of them the clips
fit, stand in order and stand apart (`Track.Sound`).

Settling makes a track sound whatever clips that fit are put on it
(`Track.Sound.settle`). The edits that do not settle a track take clips away,
change how clips are linked (`Clip.Relinks`), or exchange a clip for one in the
same place (`Track.Sound.replaceClip`).
-/
import Montage.Proofs.Edit.Fits
import Montage.Proofs.Edit.Reachable

namespace Montage

/-- A track whose clips fit it, in order and apart. -/
structure Track.Sound (track : Track Rat) : Prop where
  clips : ∀ c ∈ track.clips, c.Fits track.id track.kind
  spaced : Spaced track.clips
  gain : Within 0 1 track.gain

/-- A change of clips that only touches how they are linked and whether they are heard. -/
def Clip.Relinks (f : Clip Rat → Clip Rat) : Prop :=
  ∀ c, ∃ muted detached linked,
    f c = { c with audioMuted := muted, detachedAudio := detached, linkedVideo := linked }

theorem Clip.relinks_ite {p : Clip Rat → Bool} {f g : Clip Rat → Clip Rat} (hf : Clip.Relinks f)
    (hg : Clip.Relinks g) : Clip.Relinks fun c => if p c then f c else g c := fun c => by
  dsimp only
  split
  · exact hf c
  · exact hg c

theorem Clip.relinks_self : Clip.Relinks fun c => c := fun _ => ⟨_, _, _, rfl⟩

namespace Clip.Relinks

variable {f : Clip Rat → Clip Rat} (hf : Clip.Relinks f) (c : Clip Rat)
include hf

theorem id_eq : (f c).id = c.id := by
  obtain ⟨_, _, _, he⟩ := hf c
  rw [he]

theorem mediaId_eq : (f c).mediaId = c.mediaId := by
  obtain ⟨_, _, _, he⟩ := hf c
  rw [he]

theorem start_eq : (f c).start = c.start := by
  obtain ⟨_, _, _, he⟩ := hf c
  rw [he]

theorem visibleDuration_eq : (f c).visibleDuration = c.visibleDuration := by
  obtain ⟨_, _, _, he⟩ := hf c
  rw [he]
  rfl

end Clip.Relinks

theorem Clip.Relinks.fits {f : Clip Rat → Clip Rat} (hf : Clip.Relinks f) {c : Clip Rat} {id : String}
    {kind : TrackKind} (h : c.Fits id kind) : (f c).Fits id kind := by
  obtain ⟨_, _, _, he⟩ := hf c
  rw [he]
  exact h.recut rfl rfl rfl rfl h.start h.rawDuration h.trimsFit

/-- What follows a clip starts later. -/
theorem Follows.start_lt {a b : Clip Rat} (h : Follows a b)
    (hlong : minClipDuration ≤ a.visibleDuration) : a.start < b.start := by
  have hend : a.start + a.visibleDuration - overlapTolerance ≤ b.start := h.2
  rw [minClipDuration_eq] at hlong
  rw [overlapTolerance_eq] at hend
  linarith

namespace Track.Sound

variable {track : Track Rat} {clips : List (Clip Rat)}

theorem valid (h : track.Sound) : track.Valid :=
  ⟨fun c hc => (h.clips c hc).toValid, h.gain⟩

theorem of_blank {id : String} {kind : TrackKind} (h : track.Blank id kind) : track.Sound where
  clips := by simp [h.clips]
  spaced := by simp [h.clips, Spaced]
  gain := by norm_num [h.gain, Within]

/-- Whatever fits a track stands apart once it is settled. -/
theorem settle (h : track.Sound) (hc : ∀ c ∈ clips, c.Fits track.id track.kind) :
    (track.settle clips).Sound where
  clips := fun x hx => by
    have hs : (0 : Rat) ≤ x.start := start_nonneg_of_mem_resolve
      (fun c hmem => (hc c hmem).start) (fun c hmem => (hc c hmem).length_nonneg) hx
    obtain ⟨c, hmem, s, -, rfl⟩ := exists_of_mem_resolve hx
    exact (hc c hmem).startingAt hs
  spaced := resolve_spaced fun c hmem => (hc c hmem).tolerance_le_length
  gain := h.gain

/-- To settle a track that is sound changes nothing. -/
theorem settle_self (h : track.Sound) : track.settle track.clips = track := by
  rw [Track.settle, resolve_of_spaced h.spaced fun c hc => (h.clips c hc).start]

/-- A clip put on a track pushes the others apart. -/
theorem place (h : track.Sound) {clip : Clip Rat} (hc : clip.Fits track.id track.kind) :
    (track.settle (track.clips ++ [clip])).Sound := by
  refine h.settle fun c hmem => ?_
  rw [List.mem_append, List.mem_singleton] at hmem
  rcases hmem with hmem | rfl
  · exact h.clips c hmem
  · exact hc

theorem filter (h : track.Sound) (p : Clip Rat → Bool) :
    ({ track with clips := track.clips.filter p } : Track Rat).Sound where
  clips := fun c hc => h.clips c (List.mem_of_mem_filter hc)
  spaced := List.Pairwise.filter p h.spaced
  gain := h.gain

theorem map {f : Clip Rat → Clip Rat} (h : track.Sound) (hf : Clip.Relinks f) :
    ({ track with clips := track.clips.map f } : Track Rat).Sound where
  clips := by
    intro c hc
    obtain ⟨d, hd, rfl⟩ := List.mem_map.1 hc
    exact hf.fits (h.clips d hd)
  spaced := by
    refine h.spaced.of_map_place ?_
    rw [List.map_map]
    refine List.map_congr_left fun c _ => ?_
    obtain ⟨_, _, _, he⟩ := hf c
    rw [Function.comp_apply, he]
    rfl
  gain := h.gain

theorem fits_replaceClip (h : track.Sound) {new : Clip Rat} (hnew : new.Fits track.id track.kind) :
    ∀ c ∈ Montage.replaceClip track.clips new, c.Fits track.id track.kind := by
  intro c hc
  rcases mem_replaceClip hc with rfl | hc
  · exact hnew
  · exact h.clips c hc

/-- A clip exchanged for one in the same place leaves the others apart from it. -/
theorem replaceClip (h : track.Sound) (hn : (track.clips.map (·.id)).Nodup) {old new : Clip Rat}
    (ho : old ∈ track.clips) (hid : new.id = old.id) (hnew : new.Fits track.id track.kind)
    (hs : new.start = old.start) (hl : new.visibleDuration = old.visibleDuration) :
    ({ track with clips := Montage.replaceClip track.clips new } : Track Rat).Sound where
  clips := h.fits_replaceClip hnew
  spaced := h.spaced.of_map_place (map_replaceClip hn ho hid (Prod.ext hs hl))
  gain := h.gain

end Track.Sound

/-- Tracks that are all sound. -/
def Timeline.Sound (t : Timeline Rat) : Prop := ∀ track ∈ t.tracks, track.Sound

namespace Timeline.Sound

variable {t u : Timeline Rat} {track : Track Rat} {ids rest : Ids} {clipId trackId : String}
  {given : Option String}

theorem valid (h : t.Sound) : ∀ track ∈ t.tracks, track.Valid := fun track ht => (h track ht).valid

/-! ## Steps -/

theorem of_tracks_eq (h : t.Sound) (he : u.tracks = t.tracks) : u.Sound :=
  fun track ht => h track (he ▸ ht)

theorem replaceTrack (h : t.Sound) (hs : track.Sound) : (t.replaceTrack track).Sound := by
  intro x hx
  rcases mem_replaceTrack hx with rfl | hx
  · exact hs
  · exact h x hx

theorem renewed (h : t.Sound) (b : Bool) : (t.renewed b).Sound := h.of_tracks_eq (by simp)

theorem mapClips (h : t.Sound) {f : Clip Rat → Clip Rat} (hf : Clip.Relinks f) :
    (t.mapClips f).Sound := by
  intro x hx
  obtain ⟨track, ht, rfl⟩ := List.mem_map.1 hx
  exact (h track ht).map hf

theorem append (h : t.Sound) {id : String} {kind : TrackKind} (hb : track.Blank id kind)
    (hu : u.tracks = t.tracks ++ [track]) : u.Sound := by
  intro x hx
  rw [hu, List.mem_append, List.mem_singleton] at hx
  rcases hx with hx | rfl
  · exact h x hx
  · exact .of_blank hb

theorem dropRecords (h : t.Sound) (removed : List String) : (t.dropRecords removed).Sound := by
  unfold Timeline.dropRecords
  split
  · exact h
  · refine mapClips ?_ fun _ => ⟨_, _, _, rfl⟩
    exact h.of_tracks_eq rfl

/-- A clip is put on a track. -/
theorem place (h : t.Sound) (ht : track ∈ t.tracks) {clip : Clip Rat}
    (hc : clip.Fits track.id track.kind) :
    (t.replaceTrack (track.settle (track.clips ++ [clip]))).Sound :=
  h.replaceTrack ((h track ht).place hc)

theorem exchanged (h : t.Sound) (hl : t.Linked) (he : u = t ∨ t.Exchanged u) : u.Sound := by
  rcases he with rfl | ⟨b, ht, ho, hedit, hnew, hclips⟩ | ⟨time, b, ht, ho⟩
  · exact h
  · have hsound := h _ ht
    have hold := hsound.clips _ ho
    obtain ⟨head, tail, hd⟩ := Clip.change_eq_ok hedit hnew
    have hfits := hold.of_changed hd
    refine renewed (h.replaceTrack ?_) b
    rcases hclips with rfl | ⟨htiming, rfl⟩
    · exact hsound.settle (hsound.fits_replaceClip hfits)
    · obtain ⟨hs, hlength⟩ := hold.same_place hd htiming
      exact hsound.replaceClip (nodup_clipIds hl.clipIds ht) ho hd.id hfits hs hlength
  · have hsound := h _ ht
    have hfits := (hsound.clips _ ho).stretched time
    exact renewed (h.replaceTrack (hsound.settle (hsound.fits_replaceClip hfits))) b

theorem retuned (h : t.Sound) (hu : u = t ∨ t.Retuned u) : u.Sound := by
  rcases hu with rfl | ⟨track, ht, muted, locked, gain, hgain, rfl⟩
  · exact h
  · refine h.replaceTrack ⟨(h track ht).clips, (h track ht).spaced, ?_⟩
    rcases hgain with rfl | ⟨asked, rfl⟩
    · exact (h track ht).gain
    · norm_num
      exact clamp_within zero_le_one asked

/-! ## Edits -/

theorem tracks_setAspectRatio (h : t.Sound) {ratio : Json Rat}
    (hu : t.setAspectRatio ratio = .valid u) : u.tracks = t.tracks := by
  unfold Timeline.setAspectRatio at hu
  rw [Report.map_eq_valid] at hu
  obtain ⟨v, hv, rfl⟩ := hu
  have htracks : v.tracks = t.tracks := tracks_of_read h.valid hv
  exact htracks

theorem setAspectRatio (h : t.Sound) {ratio : Json Rat} (hu : t.setAspectRatio ratio = .valid u) :
    u.Sound :=
  h.of_tracks_eq (h.tracks_setAspectRatio hu)

theorem removeTrack (h : t.Sound) (trackId : String) : (t.removeTrack trackId).Sound := by
  unfold Timeline.removeTrack
  split
  · exact h
  · refine dropRecords ?_ _
    exact fun track ht => h track (List.mem_of_mem_filter ht)

theorem addClip (h : t.Sound) {asset : Asset Rat} {start : Rat}
    (hu : t.addClip trackId asset start given ids = (u, rest)) : u.Sound := by
  rcases addClip_cases hu with ⟨rfl, -⟩ | ⟨track, ht, -, hkind, -, rfl⟩
  · exact h
  · exact h.place ht (.clipOf hkind start _)

theorem removeClip (h : t.Sound) (clipId : String) : (t.removeClip clipId).Sound := by
  unfold Timeline.removeClip
  split
  · exact h
  · next track clip hclip =>
    have ht := (editable?_eq_some hclip).1
    exact dropRecords (h.replaceTrack ((h track ht).filter _)) _

theorem moveClip (h : t.Sound) (hl : t.Linked) (clipId trackId : String) (start : Rat) :
    (t.moveClip clipId trackId start).Sound := by
  rcases moveClip_cases t clipId trackId start with
    he | ⟨source, hs, target, ht, clip, hc, rfl, -, hkind, ⟨hid, he⟩ | ⟨-, he⟩⟩ <;> rw [he]
  · exact h
  · obtain rfl := List.inj_on_of_nodup_map hl.trackIds hs ht hid
    have hfits := ((h source hs).clips clip hc).moved hkind start
    exact h.replaceTrack ((h source hs).settle ((h source hs).fits_replaceClip hfits))
  · have hfits := ((h source hs).clips clip hc).moved hkind start
    exact replaceTrack (h.replaceTrack ((h source hs).filter _)) ((h target ht).place hfits)

theorem splitClip (h : t.Sound) {time : Rat} (hu : t.splitClip clipId time given ids = (u, rest)) :
    u.Sound := by
  rcases splitClip_cases hu with ⟨rfl, -⟩ | ⟨track, ht, clip, hc, -, hcuts, -, transitions, -, rfl⟩
  · exact h
  have hclip := (h track ht).clips clip hc
  have hparts : ∀ x ∈ track.clips.flatMap (fun c => if c.id == clipId then
      [headPart clip time, tailPart clip (ids.choose given).1 time] else [c]),
      x.Fits track.id track.kind := by
    intro x hx
    obtain ⟨c, hmem, hx⟩ := List.mem_flatMap.1 hx
    split at hx
    · simp only [List.mem_cons, List.not_mem_nil, or_false] at hx
      rcases hx with rfl | rfl
      · exact headPart_fits hclip hcuts
      · exact tailPart_fits hclip hcuts
    · rw [List.mem_singleton.1 hx]
      exact (h track ht).clips c hmem
  have hcut := h.replaceTrack ((h track ht).settle hparts)
  dsimp only
  split
  · refine mapClips ?_ fun _ => ⟨_, _, _, rfl⟩
    exact hcut.of_tracks_eq rfl
  · exact hcut.of_tracks_eq rfl

theorem repairLinks (h : t.Sound) : t.repairLinks.Sound := h.mapClips fun _ => ⟨_, _, _, rfl⟩

theorem detachAudio (h : t.Sound) (hu : t.detachAudio clipId given ids = .ok (u, rest)) : u.Sound := by
  rcases detachAudio_cases hu with
    ⟨rfl, -⟩ | ⟨video, t₁, ids₁, track, audio, hvideo, htrack, -, haudio, rfl⟩
  · exact h
  have hready : (if isDetached video then t.repairLinks else t).Sound := by
    split
    · exact h.repairLinks
    · exact h
  obtain ⟨source, hs, hv⟩ := List.mem_flatMap.1 (detachable?_eq_some hvideo).1
  have hvfits := (h source hs).clips video hv
  refine mapClips ?_ (Clip.relinks_ite (fun _ => ⟨_, _, _, rfl⟩) Clip.relinks_self)
  obtain ⟨found, hkind, ⟨hmem, -, he⟩ | ⟨hblank, he⟩⟩ := audioTrack_cases
    (if isDetached video then t.repairLinks else t) ids <;> rw [he] at htrack <;> cases htrack <;>
    obtain rfl := eq_of_recheck_detachedFrom hvfits hkind haudio
  · exact hready.place hmem (detachedFrom_fits hvfits hkind)
  · exact place (hready.append hblank rfl) (by simp) (detachedFrom_fits hvfits hkind)

theorem unlinkAudio (h : t.Sound) (clipId : String) : (t.unlinkAudio clipId).Sound := by
  unfold Timeline.unlinkAudio
  split
  · exact h
  · exact h.mapClips (Clip.relinks_ite (fun _ => ⟨_, _, _, rfl⟩) Clip.relinks_self)

theorem linkAudio (h : t.Sound) (videoId audioId : String) : (t.linkAudio videoId audioId).Sound := by
  unfold Timeline.linkAudio
  split
  · exact mapClips ((h.unlinkAudio videoId).unlinkAudio audioId)
      (Clip.relinks_ite (fun _ => ⟨_, _, _, rfl⟩)
        (Clip.relinks_ite (fun _ => ⟨_, _, _, rfl⟩) Clip.relinks_self))
  · exact h

/-- **Every edit keeps the tracks sound.** -/
theorem run (h : t.Sound) (hl : t.Linked) {e : Edit Rat} (hr : e.run t ids = .ok (u, rest)) :
    u.Sound := by
  cases e with
  | setProjectName name =>
    cases hr
    exact h.of_tracks_eq rfl
  | setAspectRatio ratio =>
    have hr := Report.orRefuse_eq_ok.1 (eq_ok_of_map_pair hr)
    exact h.setAspectRatio hr
  | addTrack kind name given =>
    obtain ⟨track, hblank, he⟩ := t.addTrack_cases kind name given ids
    rw [Edit.run, he] at hr
    cases hr
    exact h.append hblank rfl
  | removeTrack trackId =>
    cases hr
    exact h.removeTrack trackId
  | toggleTrackMute trackId =>
    cases hr
    exact h.retuned (t.toggleTrackMute_cases trackId)
  | toggleTrackLock trackId =>
    cases hr
    exact h.retuned (t.toggleTrackLock_cases trackId)
  | setTrackGain trackId gain =>
    cases hr
    exact h.retuned (t.setTrackGain_cases trackId gain)
  | addClip trackId asset start given =>
    exact h.addClip (Except.ok.inj hr)
  | removeClip clipId =>
    cases hr
    exact h.removeClip clipId
  | updateClip clipId changes =>
    have hr := eq_ok_of_map_pair hr
    exact h.exchanged hl (updateClip_cases hr)
  | trimClip clipId trimIn trimOut =>
    have hr := eq_ok_of_map_pair hr
    exact h.exchanged hl (updateClip_cases hr)
  | resizeClip clipId edge time =>
    have hr := eq_ok_of_map_pair hr
    exact h.exchanged hl (resizeClip_cases hr)
  | moveClip clipId trackId start =>
    cases hr
    exact h.moveClip hl clipId trackId start
  | splitClip clipId time given =>
    exact h.splitClip (Except.ok.inj hr)
  | detachAudio videoId given =>
    exact h.detachAudio hr
  | linkAudio videoId audioId =>
    cases hr
    exact h.linkAudio videoId audioId
  | unlinkAudio clipId =>
    cases hr
    exact h.unlinkAudio clipId
  | setClipAudioMuted clipId muted =>
    have hr := eq_ok_of_map_pair hr
    exact h.exchanged hl (updateClip_cases hr)
  | repairLinks =>
    cases hr
    exact h.repairLinks
  | addOverlay text trackId start overlayId style =>
    rcases addOverlay_cases hr with he | ⟨track, hblank, -, he⟩
    · exact h.of_tracks_eq he
    · exact h.append hblank he
  | updateOverlay overlayId changes =>
    have hr := eq_ok_of_map_pair hr
    exact h.of_tracks_eq (updateOverlay_tracks hr)
  | removeOverlay overlayId =>
    cases hr
    exact h.of_tracks_eq rfl
  | moveOverlay overlayId trackId =>
    cases hr
    exact h.of_tracks_eq (t.moveOverlay_tracks overlayId trackId)
  | setTransition clipId kind duration side =>
    have hu := congrArg (fun r => r.1.tracks) (Except.ok.inj hr)
    exact h.of_tracks_eq (hu.symm.trans (t.setTransition_tracks kind duration side ids))
  | removeTransition clipId side =>
    cases hr
    exact h.of_tracks_eq rfl
  | setLook clipId params =>
    have hr := eq_ok_of_map_pair hr
    exact h.of_tracks_eq (setLook_tracks hr)
  | resetLook clipId =>
    cases hr
    exact h.of_tracks_eq rfl

end Timeline.Sound

/-! ## Timelines that are reached -/

namespace Timeline

variable {t : Timeline Rat} {track : Track Rat}

theorem Reachable.sound (h : t.Reachable) : t.Sound := by
  induction h with
  | empty name ratio => simp [Timeline.Sound, Timeline.empty]
  | step e hprev _ _ hr ih =>
    rw [Edit.apply_eq_run] at hr
    exact ih.run hprev.linked hr

/-- **Clips in order.** On every track of a timeline that is reached the clips are on
their own track, which takes their kind, and within their bounds; they stand in order and
no further into one another than the tolerance, and are left alone when pushed apart. -/
theorem Reachable.clips_in_order (h : t.Reachable) (ht : track ∈ t.tracks) :
    (∀ c ∈ track.clips,
      c.trackId = track.id ∧ track.kind.accepts c.kind = true ∧ 0 ≤ c.start ∧ 0 ≤ c.trimIn ∧
        0 ≤ c.trimOut ∧ minClipDuration ≤ c.visibleDuration) ∧
    track.clips.Pairwise (fun a b => a.start ≤ b.start) ∧
    track.clips.Pairwise (fun a b => a.finish - overlapTolerance ≤ b.start) ∧
    resolve track.clips = track.clips := by
  have hsound := h.sound track ht
  refine ⟨fun c hc => ?_, hsound.spaced.imp fun hab => hab.1, hsound.spaced.imp fun hab => hab.2,
    resolve_of_spaced hsound.spaced fun c hc => (hsound.clips c hc).start⟩
  have hfits := hsound.clips c hc
  exact ⟨hfits.home, hfits.accepted, hfits.start, hfits.trimIn, hfits.trimOut, hfits.visible⟩

theorem roughCut_in_order :
    roughCut.tracks.map (fun track => track.clips.map fun c => (c.id, c.start)) =
      [[("a", 0), ("b", 4)], [("c", 0)]] ∧
    ∀ track ∈ roughCut.tracks,
      track.clips.Pairwise (fun a b => a.finish - overlapTolerance ≤ b.start) ∧
        resolve track.clips = track.clips :=
  ⟨by cbv, fun _ ht => (roughCut_reachable.clips_in_order ht).2.2⟩

end Timeline

end Montage
