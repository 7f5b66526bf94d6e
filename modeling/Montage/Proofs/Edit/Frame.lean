/-
What an edit does to the clips that it does not address, in exact arithmetic.

Such a clip is carried (`Clip.Carried`): it keeps all but its start and its links. It is
pushed along, and never back, only on the track that the edit settles and only from where
the edit puts its own clip on; and it is linked otherwise only if it was linked to a clip
that the edit addresses or takes away. Each step of an edit carries the clips
(`Timeline.Carries`), so every edit does (`Timeline.Sound.carries`).
-/
import Montage.Proofs.Edit.Census
import Montage.Proofs.Edit.Sound

namespace Montage

/-! ## What an edit addresses -/

/-- The clips that an edit names in order to change them or to link them. -/
def Edit.addressed : Edit Rat → List String
  | .removeClip clipId | .updateClip clipId _ | .trimClip clipId _ _ | .resizeClip clipId _ _
  | .moveClip clipId _ _ | .splitClip clipId _ _ | .detachAudio clipId _ | .unlinkAudio clipId
  | .setClipAudioMuted clipId _ => [clipId]
  | .linkAudio videoId audioId => [videoId, audioId]
  | _ => []

/-- Where a change of its fields asks for a clip: at the start it sets, or where the clip is. -/
def Clip.asked (c : Clip Rat) (changes : Fields Rat) : Rat :=
  match changes.get? "start_time" with
  | none => c.start
  | some j =>
    match ClipChange.operand j with
    | .ok x => x
    | .error _ => c.start

theorem Clip.Changed.asked_le {clip new : Clip Rat} {changes : Fields Rat} {head tail : Rat}
    (h : clip.Changed changes head tail new) : clip.asked changes ≤ new.start := by
  unfold Clip.asked
  split
  · next hnone => exact (h.start_of_none hnone).ge
  · next j hj =>
    obtain ⟨x, hx, he⟩ := h.start_of_some j hj
    rw [hx, he]
    exact le_max_right 0 x

/-- The track that an edit settles, and where on it the edit asks for its clip. Cutting a clip
settles its track too, but asks for nothing that is not there. -/
def Edit.unsettles (t : Timeline Rat) : Edit Rat → Option (String × Rat)
  | .addClip trackId _ start _ => some (trackId, start)
  | .updateClip clipId changes =>
    if ClipChange.timing.any fun name => changes.has name then
      (t.editable? clipId).map fun (track, clip) => (track.id, clip.asked changes)
    else none
  | .trimClip clipId _ _ | .resizeClip clipId .finish _ =>
    (t.editable? clipId).map fun (track, clip) => (track.id, clip.start)
  | .resizeClip clipId .start time =>
    (t.editable? clipId).map fun (track, clip) =>
      (track.id, max (max 0 (clip.start - clip.trimIn)) time)
  | .moveClip _ trackId start => some (trackId, start)
  | .detachAudio videoId _ =>
    (t.detachable? videoId).bind fun video =>
      ((t.tracksOfKind [.audio]).find? (!·.locked)).map fun track => (track.id, video.start)
  | _ => none

/-! ## Clips that are carried -/

/-- Whether a clip is heard, and what it is linked to. -/
def Clip.sound (c : Clip Rat) : Bool × Option String × Option String :=
  (c.audioMuted, c.detachedAudio, c.linkedVideo)

/-- A clip and what an edit leaves of it: it may be pushed along from a place on a track, and
lose or get links if it is linked to one of some clips. -/
structure Clip.Carried (place : Option (String × Rat)) (loosed : List String) (c d : Clip Rat) :
    Prop where
  same : d = { c with
    start := d.start, audioMuted := d.audioMuted, detachedAudio := d.detachedAudio
    linkedVideo := d.linkedVideo }
  le : c.start ≤ d.start
  pushed : c.start < d.start → ∃ p ∈ place, p.1 = c.trackId ∧ p.2 ≤ c.start
  sound : d.sound = c.sound ∨
    ∃ i ∈ loosed, c.detachedAudio = some i ∨ c.linkedVideo = some i

namespace Clip.Carried

variable {place : Option (String × Rat)} {loosed removed : List String} {c d e : Clip Rat}

theorem id (h : c.Carried place loosed d) : d.id = c.id := by
  rw [h.same]

theorem trackId (h : c.Carried place loosed d) : d.trackId = c.trackId := by
  rw [h.same]

theorem refl (c : Clip Rat) : c.Carried place loosed c :=
  ⟨rfl, le_rfl, fun h => absurd h (lt_irrefl _), .inl rfl⟩

theorem trans (h : c.Carried place loosed d) (h' : d.Carried place loosed e) :
    c.Carried place loosed e where
  same := by
    rw [h'.same, h.same]
  le := h.le.trans h'.le
  pushed hlt := by
    rcases lt_or_eq_of_le h.le with hcd | hcd
    · exact h.pushed hcd
    · rw [hcd] at hlt ⊢
      rw [← h.trackId]
      exact h'.pushed hlt
  sound := by
    rcases h.sound with hsame | hloosed
    · have hdetached : d.detachedAudio = c.detachedAudio := congrArg (·.2.1) hsame
      have hlinked : d.linkedVideo = c.linkedVideo := congrArg (·.2.2) hsame
      rw [← hsame, ← hdetached, ← hlinked]
      exact h'.sound
    · exact .inr hloosed

/-- A clip that is pushed along. -/
theorem startingAt {s : Rat} (hle : c.start ≤ s)
    (hpushed : c.start < s → ∃ p ∈ place, p.1 = c.trackId ∧ p.2 ≤ c.start) :
    c.Carried place loosed { c with start := s } :=
  ⟨rfl, hle, hpushed, .inl rfl⟩

/-- A clip whose links change. -/
theorem relinked {muted : Bool} {detached linked : Option String}
    (h : ∃ i ∈ loosed, c.detachedAudio = some i ∨ c.linkedVideo = some i) :
    c.Carried place loosed
      { c with audioMuted := muted, detachedAudio := detached, linkedVideo := linked } :=
  ⟨rfl, le_rfl, fun h => absurd h (lt_irrefl _), .inr h⟩

theorem unlink (hsub : removed ⊆ loosed) (b : Bool) :
    c.Carried place loosed (c.unlink removed b) := by
  have named {link : Option String} (h : namesOne removed link = true) :
      ∃ i ∈ loosed, link = some i := by
    cases link with
    | none => cases h
    | some i => exact ⟨i, hsub (List.contains_iff_mem.1 h), rfl⟩
  by_cases hd : namesOne removed c.detachedAudio = true
  · obtain ⟨i, hi, he⟩ := named hd
    exact relinked ⟨i, hi, .inl he⟩
  by_cases hl : namesOne removed c.linkedVideo = true
  · obtain ⟨i, hi, he⟩ := named hl
    exact relinked ⟨i, hi, .inr he⟩
  have hself : c.unlink removed b = c := by
    simp [Clip.unlink, hd, hl]
  rw [hself]
  exact refl c

end Clip.Carried

/-! ## Timelines whose clips are carried -/

/-- Every clip of the later timeline, but for some that are edited, is carried over from the
earlier one. -/
def Timeline.Carries (place : Option (String × Rat)) (edited loosed : List String)
    (t u : Timeline Rat) : Prop :=
  ∀ d ∈ u.allClips, d.id ∈ edited ∨ ∃ c ∈ t.allClips, c.Carried place loosed d

namespace Timeline.Carries

variable {place : Option (String × Rat)} {edited loosed removed : List String}
  {t u v : Timeline Rat} {track new : Track Rat} {clips : List (Clip Rat)} {clipId : String}

theorem of_subset (h : u.allClips ⊆ t.allClips) : Carries place edited loosed t u :=
  fun d hd => .inr ⟨d, h hd, .refl d⟩

theorem of_tracks_eq (h : u.tracks = t.tracks) : Carries place edited loosed t u :=
  of_subset (by simp [allClips, h])

theorem refl (t : Timeline Rat) : Carries place edited loosed t t := of_tracks_eq rfl

theorem trans (h : Carries place edited loosed t u) (h' : Carries place edited loosed u v) :
    Carries place edited loosed t v := by
  intro e he
  rcases h' e he with he | ⟨d, hd, hde⟩
  · exact .inl he
  rcases h d hd with hmem | ⟨c, hc, hcd⟩
  · exact .inl (hde.id ▸ hmem)
  · exact .inr ⟨c, hc, hcd.trans hde⟩

theorem mapClips {f : Clip Rat → Clip Rat}
    (h : ∀ c ∈ t.allClips, (f c).id ∈ edited ∨ c.Carried place loosed (f c)) :
    Carries place edited loosed t (t.mapClips f) := by
  intro d hd
  rw [allClips_mapClips] at hd
  obtain ⟨c, hc, rfl⟩ := List.mem_map.1 hd
  exact (h c hc).imp_right fun hcarried => ⟨c, hc, hcarried⟩

/-- The clips of one track are exchanged. -/
theorem replaceTrack (ht : track ∈ t.tracks)
    (h : ∀ d ∈ new.clips, d.id ∈ edited ∨ ∃ c ∈ track.clips, c.Carried place loosed d) :
    Carries place edited loosed t (t.replaceTrack new) := by
  intro d hd
  obtain ⟨x, hx, hdx⟩ := List.mem_flatMap.1 hd
  rcases mem_replaceTrack hx with rfl | hx
  · exact (h d hdx).imp_right fun ⟨c, hc, hcarried⟩ => ⟨c, mem_allClips ht hc, hcarried⟩
  · exact .inr ⟨d, mem_allClips hx hdx, .refl d⟩

theorem renewed (h : Carries place edited loosed t u) (b : Bool) :
    Carries place edited loosed t (u.renewed b) :=
  h.trans (of_tracks_eq (by simp))

theorem dropRecords (hsub : removed ⊆ loosed) :
    Carries place edited loosed t (t.dropRecords removed) := by
  unfold Timeline.dropRecords
  split
  · exact refl t
  · refine (of_tracks_eq rfl : Carries place edited loosed t _).trans (mapClips fun c _ => .inr ?_)
    exact .unlink hsub true

/-- A track is settled with other clips on it: what starts before the place of those stays. -/
theorem settle (hs : track.Sound) (ht : track ∈ t.tracks) {start : Rat}
    (hclips : ∀ d ∈ clips, 0 ≤ d.start ∧ (d.id ∈ edited ∨ d ∈ track.clips))
    (hearly : (clips.filter fun c => decide (c.start < start)).Sublist track.clips) :
    Carries (some (track.id, start)) edited loosed t (t.replaceTrack (track.settle clips)) := by
  refine replaceTrack ht fun d hd => ?_
  obtain ⟨c, hc, s, hle, hpushed, rfl⟩ := exists_of_mem_resolve_of_early
    (hs.spaced.sublist hearly) (fun c hc => (hclips c hc).1) hd
  refine (hclips c hc).2.imp_right fun hmem => ⟨c, hmem, .startingAt hle fun hlt => ?_⟩
  exact ⟨_, rfl, (hs.clips c hmem).home.symm, hpushed hlt⟩

/-- A track is settled with clips that are spaced already. -/
theorem settle_of_spaced (ht : track ∈ t.tracks) (hspaced : Spaced clips)
    (hclips : ∀ d ∈ clips, 0 ≤ d.start ∧ (d.id ∈ edited ∨ d ∈ track.clips)) :
    Carries place edited loosed t (t.replaceTrack (track.settle clips)) := by
  refine replaceTrack ht fun d hd => ?_
  have hself : resolve clips = clips := resolve_of_spaced hspaced fun c hc => (hclips c hc).1
  rw [Track.settle, hself] at hd
  exact (hclips d hd).2.imp_right fun hmem => ⟨d, hmem, .refl d⟩

end Timeline.Carries

/-- Every clip after an edit is new, or addressed by the edit, or carried over. -/
def Edit.Spares (e : Edit Rat) (t u : Timeline Rat) : Prop :=
  ∃ fresh : List String, (∀ id ∈ fresh, id ∉ t.clipIds) ∧
    t.Carries (e.unsettles t) (fresh ++ e.addressed) (e.addressed ++ e.taken t) u

namespace Edit.Spares

variable {e : Edit Rat} {t u : Timeline Rat} {id : String}

theorem of_carries (h : t.Carries (e.unsettles t) e.addressed (e.addressed ++ e.taken t) u) :
    e.Spares t u :=
  ⟨[], by simp, h⟩

theorem of_carries_new (hid : id ∉ t.clipIds)
    (h : t.Carries (e.unsettles t) (id :: e.addressed) (e.addressed ++ e.taken t) u) :
    e.Spares t u :=
  ⟨[id], by simpa using hid, h⟩

theorem of_tracks_eq (h : u.tracks = t.tracks) : e.Spares t u := of_carries (.of_tracks_eq h)

end Edit.Spares

/-! ## Clips on their track -/

section Track

variable {track : Track Rat} {clips : List (Clip Rat)} {clip new d : Clip Rat} {start time : Rat}
  {newId : String}

/-- Around a clip that is exchanged for one that starts no earlier than a place the others
before that place are as they were. -/
theorem filter_replaceClip_sublist (hlate : start ≤ new.start) :
    ((replaceClip clips new).filter fun c => decide (c.start < start)).Sublist clips := by
  induction clips with
  | nil => exact .slnil
  | cons c clips ih =>
    simp only [replaceClip, List.map_cons] at ih ⊢
    split
    · rw [List.filter_cons_of_neg (by simpa using hlate)]
      exact ih.cons c
    · rw [List.filter_cons]
      split
      · exact ih.cons_cons c
      · exact ih.cons c

theorem filter_append_sublist (hlate : start ≤ new.start) :
    ((clips ++ [new]).filter fun c => decide (c.start < start)).Sublist clips := by
  rw [List.filter_append, List.filter_cons_of_neg (by simpa using hlate)]
  simp

namespace Track.Sound

/-- The clips of a sound track around one of them. -/
theorem exists_recut (hs : track.Sound) (hn : (track.clips.map (·.id)).Nodup)
    (hc : clip ∈ track.clips) :
    ∃ pre post, track.clips = pre ++ clip :: post ∧ (∀ y ∈ pre ++ post, y.id ≠ clip.id) ∧
      ∀ mid : List (Clip Rat), Spaced mid →
        (∀ b ∈ mid, clip.start ≤ b.start ∧ b.start ≤ clip.finish - overlapTolerance ∧
          b.finish ≤ clip.finish) → Spaced (pre ++ (mid ++ post)) := by
  obtain ⟨pre, post, hsplit, hne⟩ := exists_split_of_mem hn hc
  refine ⟨pre, post, hsplit, hne, fun mid hmid hspan => ?_⟩
  have hspaced : Spaced (pre ++ clip :: post) := hsplit ▸ hs.spaced
  exact hspaced.recut hmid (fun b hb => ⟨(hspan b hb).1, (hspan b hb).2.1⟩)
    fun b hb => (hspan b hb).2.2

end Track.Sound

/-- A clip whose start is dragged ends where it did. -/
theorem Clip.Fits.dragged {id : String} {kind : TrackKind} {head tail : Rat} (h : clip.Fits id kind)
    (hd : clip.Changed [("start_time", .real start),
      ("trim_in", .real (clip.trimIn + (start - clip.start)))] head tail new)
    (hfirst : max 0 (clip.start - clip.trimIn) ≤ start)
    (hlast : start ≤ clip.finish - minClipDuration) :
    new.start = start ∧ new.finish = clip.finish := by
  obtain ⟨hzero, hin⟩ := max_le_iff.1 hfirst
  have hstart : new.start = start := by
    obtain ⟨x, hx, he⟩ := hd.start_of_some (.real start) (by simp)
    rw [ClipChange.operand_real, Except.ok.injEq] at hx
    rw [he, ← hx, max_eq_right hzero]
  have hhead : clip.trimIn + (start - clip.start) = head := by simpa using hd.head
  have htail : clip.trimOut = tail := by simpa using hd.tail
  have hvisible := h.visible
  rw [Clip.finish, Clip.visibleDuration] at hlast
  have htrims : TrimsFit clip.rawDuration head tail :=
    ⟨by linarith, htail ▸ h.trimOut, by linarith⟩
  have hkept := hd.trims
  rw [clampTrims_of_fits htrims, Prod.mk.injEq] at hkept
  refine ⟨hstart, ?_⟩
  rw [Clip.finish, Clip.finish, Clip.visibleDuration, Clip.visibleDuration, hstart, hd.rawDuration,
    hkept.1, hkept.2, ← hhead, ← htail]
  ring

end Track

/-! ## Edits -/

namespace Timeline

variable {place : Option (String × Rat)} {edited loosed : List String} {t u : Timeline Rat}
  {track : Track Rat} {clip new : Clip Rat} {ids rest : Ids} {clipId trackId : String}
  {given : Option String} {start time : Rat} {changes : Fields Rat} {e : Edit Rat}

/-- A clip is exchanged for one that starts no earlier than the place asked for. -/
theorem Carries.exchange (hs : track.Sound) (ht : track ∈ t.tracks) (hid : new.id ∈ edited)
    (hnew : 0 ≤ new.start) (hlate : start ≤ new.start) :
    Carries (some (track.id, start)) edited loosed t
      (t.replaceTrack (track.settle (replaceClip track.clips new))) := by
  refine .settle hs ht (fun d hd => ?_) (filter_replaceClip_sublist hlate)
  rcases mem_replaceClip hd with rfl | hd
  · exact ⟨hnew, .inl hid⟩
  · exact ⟨(hs.clips d hd).start, .inr hd⟩

/-- A clip is put on a track, no earlier than the place asked for. -/
theorem Carries.put (hs : track.Sound) (ht : track ∈ t.tracks) (hid : new.id ∈ edited)
    (hnew : 0 ≤ new.start) (hlate : start ≤ new.start) :
    Carries (some (track.id, start)) edited loosed t
      (t.replaceTrack (track.settle (track.clips ++ [new]))) := by
  refine .settle hs ht (fun d hd => ?_) (filter_append_sublist hlate)
  rcases List.mem_append.1 hd with hd | hd
  · exact ⟨(hs.clips d hd).start, .inr hd⟩
  · rw [List.mem_singleton.1 hd]
    exact ⟨hnew, .inl hid⟩

namespace Sound

theorem carries_updateClip (h : t.Sound) (loosed : List String)
    (hu : t.updateClip clipId changes = .ok u) :
    Carries (Edit.unsettles t (.updateClip clipId changes)) [clipId] loosed t u := by
  rcases updateClip_eq_ok hu with ⟨-, rfl⟩ | ⟨track, clip, new, b, hclip, hedit, hnew, rfl⟩
  · exact .refl u
  obtain ⟨ht, -, hc, rfl⟩ := editable?_eq_some hclip
  obtain ⟨head, tail, hd⟩ := Clip.change_eq_ok hedit hnew
  have hid : new.id ∈ [clip.id] := by simp [hd.id]
  refine .renewed ?_ b
  simp only [Edit.unsettles, hclip, Option.map_some]
  split
  · exact .exchange (h track ht) ht hid hd.valid.start hd.asked_le
  · refine .replaceTrack ht fun d hd => ?_
    rcases mem_replaceClip hd with rfl | hd
    · exact .inl hid
    · exact .inr ⟨d, hd, .refl d⟩

/-- The start of a clip is dragged to the right: what is seen of it at the end stays, and
so does every other clip. -/
theorem carries_dragged (h : t.Sound) (hl : t.Linked) (ht : track ∈ t.tracks)
    (hc : clip ∈ track.clips) {head tail : Rat}
    (hd : clip.Changed [("start_time", .real start),
      ("trim_in", .real (clip.trimIn + (start - clip.start)))] head tail new)
    (hlate : clip.start ≤ start) (hlast : start ≤ clip.finish - minClipDuration) :
    Carries place [clip.id] loosed t
      (t.replaceTrack (track.settle (replaceClip track.clips new))) := by
  have hfits := (h track ht).clips clip hc
  have hfirst : max 0 (clip.start - clip.trimIn) ≤ start :=
    max_le (hfits.start.trans hlate) (by linarith [hfits.trimIn])
  obtain ⟨hstart, hfinish⟩ := hfits.dragged hd hfirst hlast
  obtain ⟨pre, post, hsplit, hne, hrecut⟩ := (h track ht).exists_recut (nodup_clipIds hl.clipIds ht) hc
  have hclips : replaceClip track.clips new = pre ++ ([new] ++ post) := by
    rw [hsplit]
    exact replaceClip_of_split hne hd.id
  refine .settle_of_spaced ht ?_ fun d hmem => ?_
  · rw [hclips]
    refine hrecut [new] (List.pairwise_singleton ..) fun d hmem => ?_
    rw [List.mem_singleton.1 hmem]
    rw [minClipDuration_eq] at hlast
    rw [overlapTolerance_eq]
    exact ⟨hstart ▸ hlate, by linarith, hfinish.le⟩
  · rcases mem_replaceClip hmem with rfl | hmem
    · exact ⟨hd.valid.start, .inl (by simp [hd.id])⟩
    · exact ⟨((h track ht).clips d hmem).start, .inr hmem⟩

theorem carries_resizeStart (h : t.Sound) (hl : t.Linked)
    (hu : t.resizeClip clipId .start time = .ok u) :
    Carries (Edit.unsettles t (.resizeClip clipId .start time)) [clipId] loosed t u := by
  unfold Timeline.resizeClip at hu
  cases hclip : t.editable? clipId with
  | none =>
    rw [hclip] at hu
    cases hu
    exact .refl t
  | some found =>
  obtain ⟨track, clip⟩ := found
  obtain ⟨ht, -, hc, rfl⟩ := editable?_eq_some hclip
  have hfits := (h track ht).clips clip hc
  simp only [hclip, Scalar.larger_eq_max, Scalar.smaller_eq_min, Scalar.zero_eq] at hu
  have hle : max 0 (clip.start - clip.trimIn) ≤ clip.start :=
    max_le hfits.start (by linarith [hfits.trimIn])
  have hlast : clip.start ≤ clip.finish - minClipDuration := by
    rw [Clip.finish]
    linarith [hfits.visible]
  rcases lt_or_ge time clip.start with hearly | hlate
  · -- Dragged to the left it starts where it is asked to, as far as its media goes.
    rw [min_eq_left (hearly.le.trans hlast)] at hu
    simpa [Edit.unsettles, hclip, ClipChange.timing, Clip.asked] using
      h.carries_updateClip loosed hu
  · have hstart : clip.start ≤ min time (clip.finish - minClipDuration) := le_min hlate hlast
    rw [max_eq_right (hle.trans hstart)] at hu
    rcases updateClip_eq_ok hu with ⟨hnone, -⟩ | ⟨_, _, new, b, hsome, hedit, hnew, rfl⟩
    · simp [hclip] at hnone
    rw [hclip] at hsome
    cases hsome
    obtain ⟨head, tail, hd⟩ := Clip.change_eq_ok hedit hnew
    exact .renewed (h.carries_dragged hl ht hc hd hstart (min_le_right _ _)) b

theorem carries_resizeFinish (h : t.Sound) (hu : t.resizeClip clipId .finish time = .ok u) :
    Carries (Edit.unsettles t (.resizeClip clipId .finish time)) [clipId] loosed t u := by
  unfold Timeline.resizeClip at hu
  cases hclip : t.editable? clipId with
  | none =>
    rw [hclip] at hu
    cases hu
    exact .refl t
  | some found =>
  obtain ⟨track, clip⟩ := found
  obtain ⟨ht, -, hc, rfl⟩ := editable?_eq_some hclip
  simp only [hclip] at hu
  simp only [Edit.unsettles, hclip, Option.map_some]
  split at hu
  · cases hu
    have hfits := ((h track ht).clips clip hc).stretched time
    exact .renewed (.exchange (h track ht) ht (by simp [Clip.stretched]) hfits.start le_rfl) _
  · simpa [Edit.unsettles, hclip, ClipChange.timing, Clip.asked] using
      h.carries_updateClip loosed hu

theorem carries_addClip (h : t.Sound) {asset : Asset Rat}
    (hu : t.addClip trackId asset start given ids = (u, rest)) :
    Carries (some (trackId, start)) [(ids.choose given).1] loosed t u := by
  rcases addClip_cases hu with ⟨rfl, -⟩ | ⟨track, ht, rfl, hkind, -, rfl⟩
  · exact .refl u
  · have hfits := Clip.Fits.clipOf hkind start (ids.choose given).1
    exact .put (h track ht) ht (by simp [Track.clipOf]) hfits.start (by simp [Track.clipOf])

theorem carries_moveClip (h : t.Sound) (hl : t.Linked) (clipId trackId : String) (start : Rat) :
    Carries (some (trackId, start)) [clipId] loosed t (t.moveClip clipId trackId start) := by
  rcases moveClip_cases t clipId trackId start with
    he | ⟨source, hs, target, ht, clip, hc, rfl, rfl, hkind, ⟨hid, he⟩ | ⟨hne, he⟩⟩ <;> rw [he]
  · exact .refl t
  · obtain rfl := List.inj_on_of_nodup_map hl.trackIds hs ht hid
    have hfits := ((h source hs).clips clip hc).moved hkind start
    exact .exchange (h source hs) hs (by simp) hfits.start (by simp)
  · -- Its track is left as it was but for the clip, and only the other one is settled.
    have hfits := ((h source hs).clips clip hc).moved hkind start
    refine (Carries.replaceTrack hs fun d hd => ?_).trans (.put (h target ht) ?_ (by simp) hfits.start
      (by simp))
    · exact .inr ⟨d, List.mem_of_mem_filter hd, .refl d⟩
    · exact List.mem_map.2 ⟨target, ht, if_neg (by simpa using Ne.symm hne)⟩

/-- The two parts of a clip follow one another within its span. -/
theorem parts_in_span (hcuts : cuts clip time = true) (id : String) :
    Follows (headPart clip time) (tailPart clip id time) ∧
      ∀ b ∈ [headPart clip time, tailPart clip id time], clip.start ≤ b.start ∧
        b.start ≤ clip.finish - overlapTolerance ∧ b.finish ≤ clip.finish := by
  obtain ⟨hfirst, hlast⟩ := cuts_eq_true.1 hcuts
  rw [minClipDuration_eq] at hfirst hlast
  have hfinish := headPart_finish clip time
  have hstart : (headPart clip time).start = clip.start := rfl
  have hnext : (tailPart clip id time).start = time := rfl
  rw [overlapTolerance_eq]
  refine ⟨⟨?_, ?_⟩, fun b hb => ?_⟩
  · show clip.start ≤ time
    linarith
  · show (headPart clip time).finish - overlapTolerance ≤ time
    rw [hfinish, overlapTolerance_eq]
    linarith
  · rcases List.mem_cons.1 hb with rfl | hb
    · rw [hstart, hfinish]
      exact ⟨le_rfl, by linarith, by linarith⟩
    · rw [List.mem_singleton.1 hb, hnext, tailPart_finish]
      exact ⟨by linarith, by linarith, le_rfl⟩

/-- The two parts of a clip take up its span, so that a track is settled with them in its place and
all other clips as they are. -/
theorem settle_cut (h : t.Sound) (hl : t.Linked) (ht : track ∈ t.tracks) (hc : clip ∈ track.clips)
    (hcuts : cuts clip time = true) (id : String) :
    ∃ pre post, track.clips = pre ++ clip :: post ∧
      track.settle (track.clips.flatMap fun c =>
        if c.id == clip.id then [headPart clip time, tailPart clip id time] else [c]) =
          { track with clips := pre ++ headPart clip time :: tailPart clip id time :: post } := by
  have hs := h track ht
  have hfits := hs.clips clip hc
  obtain ⟨pre, post, hsplit, hne, hrecut⟩ := hs.exists_recut (nodup_clipIds hl.clipIds ht) hc
  have hclips : track.clips.flatMap (fun c => if c.id == clip.id then
      [headPart clip time, tailPart clip id time] else [c]) =
        pre ++ ([headPart clip time, tailPart clip id time] ++ post) := by
    rw [hsplit]
    exact flatMap_at_of_split hne
  obtain ⟨hapart, hparts⟩ := parts_in_span hcuts id
  refine ⟨pre, post, hsplit, ?_⟩
  rw [hclips, Track.settle, resolve_of_spaced (hrecut _ (List.pairwise_pair.2 hapart) hparts)]
  · rfl
  intro d hd
  simp only [List.mem_append, List.mem_cons, List.not_mem_nil, or_false] at hd
  rcases hd with hd | (rfl | rfl) | hd
  · exact (hs.clips d (by simp [hsplit, hd])).start
  · exact (headPart_fits hfits hcuts).start
  · exact (tailPart_fits hfits hcuts : (tailPart clip id time).Fits _ _).start
  · exact (hs.clips d (by simp [hsplit, hd])).start

theorem carries_cut (h : t.Sound) (hl : t.Linked) (ht : track ∈ t.tracks) (hc : clip ∈ track.clips)
    (hcuts : cuts clip time = true) (id : String) :
    Carries place [id, clip.id] loosed t (t.replaceTrack (track.settle (track.clips.flatMap fun c =>
      if c.id == clip.id then [headPart clip time, tailPart clip id time] else [c]))) := by
  obtain ⟨pre, post, hsplit, hsettled⟩ := h.settle_cut hl ht hc hcuts id
  rw [hsettled]
  refine .replaceTrack ht fun d hd => ?_
  simp only [List.mem_append, List.mem_cons] at hd
  rcases hd with hd | rfl | rfl | hd
  · exact .inr ⟨d, by simp [hsplit, hd], .refl d⟩
  · exact .inl (by simp [headPart])
  · exact .inl (by simp [tailPart])
  · exact .inr ⟨d, by simp [hsplit, hd], .refl d⟩

theorem carries_splitClip (h : t.Sound) (hl : t.Linked) (hmem : clipId ∈ loosed)
    (hu : t.splitClip clipId time given ids = (u, rest)) :
    Carries place [(ids.choose given).1, clipId] loosed t u := by
  rcases splitClip_cases hu with
    ⟨rfl, -⟩ | ⟨track, ht, clip, hc, rfl, hcuts, -, transitions, -, rfl⟩
  · exact .refl u
  have hcut : Carries place [(ids.choose given).1, clip.id] loosed t _ :=
    h.carries_cut hl ht hc hcuts _
  dsimp only
  split
  · refine (hcut.trans (.of_tracks_eq rfl)).trans (.mapClips fun c _ => .inr ?_)
    exact .unlink (by simpa using hmem) false
  · exact hcut.trans (.of_tracks_eq rfl)

theorem carries_detachAudio (h : t.Sound) (hl : t.Linked)
    (hgiven : ∀ id ∈ given, id ∉ t.clipIds) (hfresh : Ids.Fresh ids rest t.clipIds)
    (hu : t.detachAudio clipId given ids = .ok (u, rest)) :
    (Edit.detachAudio clipId given : Edit Rat).Spares t u := by
  rcases detachAudio_cases hu with
    ⟨rfl, -⟩ | ⟨video, t₁, ids₁, track, audio, hvideo, htrack, rfl, haudio, rfl⟩
  · exact .of_carries (.refl u)
  rw [hl.repairLinks_eq, ite_self] at htrack
  have hid := (hfresh.of_le_left (audioTrack_le htrack)).choose hgiven
  generalize (ids₁.choose given).1 = id at hid haudio
  obtain ⟨hmem, rfl, -, -⟩ := detachable?_eq_some hvideo
  obtain ⟨source, hs, hv⟩ := List.mem_flatMap.1 hmem
  have hvfits := (h source hs).clips video hv
  refine .of_carries_new hid (Carries.trans (u := t₁.replaceTrack _) ?_ (.mapClips fun c _ => ?_))
  · obtain ⟨found, hkind, ⟨hmem, hfind, he⟩ | ⟨hblank, he⟩⟩ := t.audioTrack_cases ids <;>
      rw [he] at htrack <;> cases htrack <;>
      obtain rfl := eq_of_recheck_detachedFrom hvfits hkind haudio
    · simp only [Edit.unsettles, hvideo, hfind, Option.bind_some, Option.map_some]
      exact .put (h track hmem) hmem (by simp [detachedFrom]) hvfits.start le_rfl
    · -- A new track holds nothing else.
      have hadded : track ∈ t.tracks ++ [track] := by simp
      refine Carries.trans (u := { t with tracks := t.tracks ++ [track] }) (.of_subset ?_)
        (.replaceTrack hadded fun d hd => .inl ?_)
      · simp [allClips, hblank.clips]
      · rw [hblank.clips] at hd
        obtain ⟨b, hb, s, -, rfl⟩ := exists_of_mem_resolve hd
        simp_all [detachedFrom, Timed.startingAt]
  · by_cases he : c.id = video.id
    · exact .inl (by simp [he, Edit.addressed])
    · exact .inr (by simpa [he] using .refl c)

end Sound

/-! ### Links -/

namespace Linked

/-- A clip that is unlinked lets go of those it names, which are linked to it. -/
theorem carries_unlinkAudio (hl : t.Linked) (hedited : clipId ∈ edited) (hloosed : clipId ∈ loosed) :
    Carries place edited loosed t (t.unlinkAudio clipId) := by
  unfold Timeline.unlinkAudio
  split
  · exact .refl t
  next clip hclip =>
  obtain ⟨hc, rfl⟩ := mem_of_findClip hclip
  refine .mapClips fun c hmem => ?_
  split
  · next hpair =>
    simp only [List.contains_iff_mem, List.mem_cons, List.mem_append, Option.mem_toList] at hpair
    rcases hpair with he | he | he
    · exact .inl (by simpa [he] using hedited)
    · obtain ⟨d, hd, hid, hback⟩ := exists_clip hl.matched.forth hc he
      obtain rfl := List.inj_on_of_nodup_map hl.clipIds hd hmem hid
      exact .inr (.relinked ⟨clip.id, hloosed, .inr hback⟩)
    · obtain ⟨d, hd, hid, hback⟩ := exists_clip hl.matched.back hc he
      obtain rfl := List.inj_on_of_nodup_map hl.clipIds hd hmem hid
      exact .inr (.relinked ⟨clip.id, hloosed, .inl hback⟩)
  · exact .inr (.refl c)

theorem carries_linkAudio (hl : t.Linked) (videoId audioId : String) :
    Carries place [videoId, audioId] [videoId, audioId] t (t.linkAudio videoId audioId) := by
  unfold Timeline.linkAudio
  split
  · refine ((hl.carries_unlinkAudio (by simp) (by simp)).trans
      ((hl.unlinkAudio videoId).1.carries_unlinkAudio (by simp) (by simp))).trans (.mapClips fun c _ => ?_)
    split
    · next hv => exact .inl (by simp [beq_iff_eq.1 hv])
    · split
      · next ha => exact .inl (by simp [beq_iff_eq.1 ha])
      · exact .inr (.refl c)
  · exact .refl t

end Linked

/-! ### Clips that are taken away -/

theorem carries_removeTrack (t : Timeline Rat) (trackId : String) :
    Carries place edited (Edit.taken t (.removeTrack trackId)) t (t.removeTrack trackId) := by
  cases htrack : t.findTrack trackId with
  | none =>
    simp only [Timeline.removeTrack, htrack]
    exact .refl t
  | some track =>
    simp only [Timeline.removeTrack, Edit.taken, htrack, Option.map_some, Option.getD_some]
    refine Carries.trans (.of_subset fun d hd => ?_) (.dropRecords (List.Subset.refl _))
    obtain ⟨x, hx, hd⟩ := List.mem_flatMap.1 hd
    exact mem_allClips (List.mem_of_mem_filter hx) hd

theorem carries_removeClip (t : Timeline Rat) (hmem : clipId ∈ loosed) :
    Carries place edited loosed t (t.removeClip clipId) := by
  unfold Timeline.removeClip
  split
  · exact .refl t
  next track clip hclip =>
  refine Carries.trans (.replaceTrack (editable?_eq_some hclip).1 fun d hd => .inr ?_)
    (.dropRecords (by simpa using hmem))
  exact ⟨d, List.mem_of_mem_filter hd, .refl d⟩

/-! ### Every edit -/

theorem carries_retuned (hu : u = t ∨ t.Retuned u) : Carries place edited loosed t u := by
  rcases hu with rfl | ⟨track, ht, muted, locked, gain, -, rfl⟩
  · exact .refl u
  · exact .replaceTrack ht fun d hd => .inr ⟨d, hd, .refl d⟩

theorem carries_append {track : Track Rat} {id : String} {kind : TrackKind} (hb : track.Blank id kind)
    (hu : u.tracks = t.tracks ++ [track]) : Carries place edited loosed t u :=
  .of_subset (by simp [allClips, hu, hb.clips])

/-- **Every edit spares the clips that it does not address.** -/
theorem Sound.spares (h : t.Sound) (hl : t.Linked) (hgiven : e.GivesNew t)
    (hfresh : Ids.Fresh ids rest t.names) (hr : e.run t ids = .ok (u, rest)) : e.Spares t u := by
  have hclips := hfresh.of_subset t.clipIds_subset_names
  cases e with
  | setProjectName name =>
    cases hr
    exact .of_tracks_eq rfl
  | setAspectRatio ratio =>
    have hr := Report.orRefuse_eq_ok.1 (eq_ok_of_map_pair hr)
    exact .of_tracks_eq (h.tracks_setAspectRatio hr)
  | addTrack kind name given =>
    obtain ⟨track, hblank, he⟩ := t.addTrack_cases kind name given ids
    rw [Edit.run, he] at hr
    cases hr
    exact .of_carries (carries_append hblank rfl)
  | removeTrack trackId =>
    cases hr
    exact .of_carries (t.carries_removeTrack trackId)
  | toggleTrackMute trackId =>
    cases hr
    exact .of_carries (carries_retuned (t.toggleTrackMute_cases trackId))
  | toggleTrackLock trackId =>
    cases hr
    exact .of_carries (carries_retuned (t.toggleTrackLock_cases trackId))
  | setTrackGain trackId gain =>
    cases hr
    exact .of_carries (carries_retuned (t.setTrackGain_cases trackId gain))
  | addClip trackId asset start given =>
    have hr := Except.ok.inj hr
    rcases addClip_cases hr with ⟨rfl, -⟩ | ⟨_, -, -, -, rfl, -⟩
    · exact .of_tracks_eq rfl
    · exact .of_carries_new (hclips.choose hgiven) (h.carries_addClip hr)
  | removeClip clipId =>
    cases hr
    exact .of_carries (t.carries_removeClip (by simp [Edit.addressed]))
  | updateClip clipId changes =>
    have hr := eq_ok_of_map_pair hr
    exact .of_carries (h.carries_updateClip _ hr)
  | trimClip clipId trimIn trimOut =>
    have hr := eq_ok_of_map_pair hr
    refine .of_carries ?_
    simpa [Edit.unsettles, Edit.addressed, ClipChange.timing, Clip.asked] using
      h.carries_updateClip _ hr
  | resizeClip clipId edge time =>
    have hr := eq_ok_of_map_pair hr
    cases edge with
    | start => exact .of_carries (h.carries_resizeStart hl hr)
    | finish => exact .of_carries (h.carries_resizeFinish hr)
  | moveClip clipId trackId start =>
    cases hr
    exact .of_carries (h.carries_moveClip hl clipId trackId start)
  | splitClip clipId time given =>
    have hr := Except.ok.inj hr
    rcases splitClip_cases hr with ⟨rfl, -⟩ | ⟨_, -, _, -, -, -, rfl, -⟩
    · exact .of_tracks_eq rfl
    · exact .of_carries_new (hclips.choose hgiven) (h.carries_splitClip hl (by simp [Edit.addressed]) hr)
  | detachAudio videoId given => exact h.carries_detachAudio hl hgiven hclips hr
  | linkAudio videoId audioId =>
    cases hr
    exact .of_carries (by simpa [Edit.addressed, Edit.taken] using hl.carries_linkAudio videoId audioId)
  | unlinkAudio clipId =>
    cases hr
    exact .of_carries (hl.carries_unlinkAudio (by simp [Edit.addressed]) (by simp [Edit.addressed]))
  | setClipAudioMuted clipId muted =>
    have hr := eq_ok_of_map_pair hr
    refine .of_carries ?_
    simpa [Edit.unsettles, Edit.addressed, ClipChange.timing] using h.carries_updateClip _ hr
  | repairLinks =>
    cases hr
    exact .of_tracks_eq (by rw [hl.repairLinks_eq])
  | addOverlay text trackId start overlayId style =>
    rcases addOverlay_cases hr with he | ⟨track, hblank, -, he⟩
    · exact .of_tracks_eq he
    · exact .of_carries (carries_append hblank he)
  | updateOverlay overlayId changes =>
    have hr := eq_ok_of_map_pair hr
    exact .of_tracks_eq (updateOverlay_tracks hr)
  | removeOverlay overlayId =>
    cases hr
    exact .of_tracks_eq rfl
  | moveOverlay overlayId trackId =>
    cases hr
    exact .of_tracks_eq (t.moveOverlay_tracks overlayId trackId)
  | setTransition clipId kind duration side =>
    have hu := congrArg (fun r => r.1.tracks) (Except.ok.inj hr)
    exact .of_tracks_eq (hu.symm.trans (t.setTransition_tracks kind duration side ids))
  | removeTransition clipId side =>
    cases hr
    exact .of_tracks_eq rfl
  | setLook clipId params =>
    have hr := eq_ok_of_map_pair hr
    exact .of_tracks_eq (setLook_tracks hr)
  | resetLook clipId =>
    cases hr
    exact .of_tracks_eq rfl

/-! ## Timelines that are reached -/

/-- **Clips kept.** An edit of a timeline that is reached adds at most one clip, of a new id, and
takes away at most the clip or the clips of the track that it removes. Every other clip that it
does not address keeps all but its start, whether it is heard and what it is linked to; it is
moved only to the right, on the track that is settled and from the place that is asked for on;
and its links change only if it is linked to a clip that is addressed or taken away. -/
theorem Reachable.clips_kept (h : t.Reachable) (hgiven : e.GivesNew t)
    (hfresh : Ids.Fresh ids rest t.names) (hr : e.apply t ids = .ok (u, rest)) :
    ((e.adds = true ∧ ∃ id ∉ t.allClips.map (·.id),
        (u.allClips.map (·.id)).Perm (id :: t.allClips.map (·.id))) ∨
      (e.adds = true → u = t) ∧
        (t.allClips.map (·.id)).Perm (e.taken t ++ u.allClips.map (·.id))) ∧
    ∀ c ∈ t.allClips, ∀ d ∈ u.allClips, d.id = c.id → c.id ∉ e.addressed →
      d = { c with
        start := d.start, audioMuted := d.audioMuted, detachedAudio := d.detachedAudio
        linkedVideo := d.linkedVideo } ∧
      c.start ≤ d.start ∧
      (d.start ≠ c.start → ∃ place, e.unsettles t = some (c.trackId, place) ∧ place ≤ c.start) ∧
      (d.audioMuted ≠ c.audioMuted ∨ d.detachedAudio ≠ c.detachedAudio ∨
          d.linkedVideo ≠ c.linkedVideo →
        ∃ i ∈ e.addressed ++ e.taken t, c.detachedAudio = some i ∨ c.linkedVideo = some i) := by
  rw [Edit.apply_eq_run] at hr
  refine ⟨h.linked.counts hgiven hfresh hr, fun c hc d hd hid haddressed => ?_⟩
  obtain ⟨fresh, hnew, hcarries⟩ := h.sound.spares h.linked hgiven hfresh hr
  have hold : d.id ∉ fresh ++ e.addressed := by
    rw [List.mem_append, not_or, hid]
    exact ⟨fun hmem => hnew _ hmem (List.mem_map_of_mem hc), haddressed⟩
  obtain ⟨b, hb, hcarried⟩ := (hcarries d hd).resolve_left hold
  obtain rfl := List.inj_on_of_nodup_map h.linked.clipIds hb hc (hcarried.id.symm.trans hid)
  refine ⟨hcarried.same, hcarried.le, fun hne => ?_, fun hne => ?_⟩
  · obtain ⟨⟨trackId, place⟩, hp, rfl, hle⟩ := hcarried.pushed (lt_of_le_of_ne hcarried.le (Ne.symm hne))
    exact ⟨place, hp, hle⟩
  · refine hcarried.sound.resolve_left fun he => ?_
    simp only [Clip.sound, Prod.mk.injEq] at he
    simp [he] at hne

/-- The rough cut with a clip put on at second 2: it goes behind the first one there, and
pushes the second one along. -/
def pushedCut : Timeline Rat := roughCut.after (.addClip "v" (take .video) 2 (some "d"))

theorem pushedCut_kept :
    pushedCut.allClips.map (fun c => (c.id, c.start)) = [("a", 0), ("d", 4), ("b", 8), ("c", 0)] ∧
    (Edit.addClip "v" (take .video) 2 (some "d")).Counts roughCut pushedCut ∧
    ∀ c ∈ roughCut.allClips, ∀ d ∈ pushedCut.allClips, d.id = c.id →
      c.start ≤ d.start ∧ (d.start ≠ c.start → "v" = c.trackId ∧ 2 ≤ c.start) ∧
        d.detachedAudio = c.detachedAudio := by
  have hnew : Edit.GivesNew roughCut (.addClip "v" (take .video) 2 (some "d")) := by
    rintro _ ⟨⟩
    exact not_mem_of_contains (by cbv)
  have hr : (Edit.addClip "v" (take .video) 2 (some "d")).apply roughCut .start =
      .ok (pushedCut, .start) :=
    (Edit.apply_eq_run ..).trans (congrArg Except.ok (Prod.ext rfl (by cbv)))
  obtain ⟨hcount, hkept⟩ := roughCut_reachable.clips_kept hnew
    (fun _ hle hlt => absurd hlt (not_lt.2 hle)) hr
  refine ⟨by cbv, hcount, fun c hc d hd hid => ?_⟩
  obtain ⟨-, hle, hpushed, hlinks⟩ := hkept c hc d hd hid (by simp [Edit.addressed])
  refine ⟨hle, fun hne => ?_, not_not.1 fun hne => ?_⟩
  · obtain ⟨place, hplace, hle⟩ := hpushed hne
    obtain ⟨htrack, rfl⟩ := Prod.mk.inj (Option.some.inj hplace)
    exact ⟨htrack, hle⟩
  · obtain ⟨i, hi, -⟩ := hlinks (.inr (.inl hne))
    simp [Edit.addressed, Edit.taken] at hi

end Timeline

end Montage
