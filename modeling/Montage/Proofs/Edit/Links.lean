/-
Every edit keeps the links of audio to video matched, in any arithmetic.

Of a timeline that is linked the tracks have distinct ids and the bonds match
(`Timeline.Linked`). Each edit keeps it so; new things have to come with new ids.
While links match there is nothing to repair (`Linked.repairLinks_eq`).
-/
import Montage.Proofs.Edit.Bonds
import Montage.Proofs.Edit.Repairing

namespace Montage.Timeline

variable {α : Type} {t u : Timeline α} {track : Track α} {ids rest : Ids}
  {clipId trackId : String} {given : Option String}

/-- Tracks of distinct ids, and links that match. -/
structure Linked (t : Timeline α) : Prop where
  trackIds : (t.tracks.map (·.id)).Nodup
  matched : Matched t.bonds

namespace Linked

theorem clipIds (h : t.Linked) : (t.allClips.map (·.id)).Nodup := by
  rw [← bonds_ids]
  exact h.matched.ids

theorem of_tracks_eq (h : t.Linked) (he : u.tracks = t.tracks) : u.Linked :=
  ⟨he ▸ h.trackIds, bonds_of_tracks_eq he ▸ h.matched⟩

/-- A step that keeps the ids of the tracks, and the bonds up to their order. -/
theorem of_perm (h : t.Linked) (hids : u.tracks.map (·.id) = t.tracks.map (·.id))
    (hp : u.bonds.Perm t.bonds) : u.Linked :=
  ⟨hids ▸ h.trackIds, h.matched.perm hp⟩

theorem removeTrack (h : t.Linked) (trackId : String) : (t.removeTrack trackId).Linked := by
  unfold Timeline.removeTrack
  split
  · exact h
  next track htrack =>
  obtain ⟨ht, rfl⟩ := mem_of_findTrack htrack
  have hgone : t.bonds.Perm (track.clips.map Clip.bond ++ bonds { t with
      tracks := t.tracks.filter (·.id != track.id)
      overlays := t.overlays.filter (·.trackId != track.id) }) :=
    bonds_removeTrack h.trackIds ht rfl
  have hdrop := (h.matched.perm hgone.symm).drop
  dsimp only
  constructor
  · rw [trackIds_dropRecords]
    exact (List.filter_sublist.map _).nodup h.trackIds
  · rw [bonds_dropRecords]
    simpa [List.map_map, Function.comp_def, Clip.bond] using hdrop

theorem removeClip (h : t.Linked) (clipId : String) : (t.removeClip clipId).Linked := by
  unfold Timeline.removeClip
  split
  · exact h
  next track clip hclip =>
  obtain ⟨ht, -, hc, rfl⟩ := editable?_eq_some hclip
  have htake := bonds_take h.trackIds h.clipIds ht hc
  dsimp only
  constructor
  · simpa using h.trackIds
  · rw [bonds_dropRecords]
    exact (h.matched.perm htake.symm).drop_one

/-- Unlinking frees a clip and those that it names. -/
theorem unlinkAudio (h : t.Linked) (clipId : String) : (t.unlinkAudio clipId).Linked ∧
    ∃ p : Bond → Bool, (t.unlinkAudio clipId).bonds = t.bonds.map (fun b => if p b then b.clear else b) ∧
      ∀ b ∈ t.bonds, b.id = clipId → p b = true := by
  unfold Timeline.unlinkAudio
  split
  · next hnone =>
    refine ⟨h, fun _ => false, by simp, fun b hb hid => ?_⟩
    obtain ⟨c, hc, rfl⟩ := List.mem_map.1 hb
    have hne := List.find?_eq_none.1 hnone c hc
    exact absurd (beq_iff_eq.2 hid) hne
  next clip hclip =>
  obtain ⟨hc, rfl⟩ := mem_of_findClip hclip
  have hclear := t.bonds_clear fun id =>
    (clip.id :: (clip.detachedAudio.toList ++ clip.linkedVideo.toList)).contains id
  exact ⟨⟨by simpa using h.trackIds, hclear ▸ h.matched.clear_pair (mem_bonds hc)⟩, _, hclear,
    fun b _ hid => by simp [hid]⟩

theorem linkAudio (h : t.Linked) (videoId audioId : String) :
    (t.linkAudio videoId audioId).Linked := by
  unfold Timeline.linkAudio
  split
  · next hlinkable =>
    simp only [areLinkable, Bool.and_eq_true, Option.any_eq_true, beq_iff_eq] at hlinkable
    obtain ⟨⟨video, hfindv, hvideo⟩, audio, hfinda, haudio⟩ := hlinkable
    obtain ⟨hv, rfl⟩ := mem_of_findClip hfindv
    obtain ⟨ha, rfl⟩ := mem_of_findClip hfinda
    obtain ⟨h₁, p, hp, hpv⟩ := h.unlinkAudio video.id
    obtain ⟨h₂, q, hq, hqa⟩ := h₁.unlinkAudio audio.id
    -- Both are free by now: the video clip since the first step, the audio clip since the second.
    have hvfree : video.bond.clear ∈ ((t.unlinkAudio video.id).unlinkAudio audio.id).bonds := by
      rw [hq, hp, List.map_map]
      refine List.mem_map.2 ⟨video.bond, mem_bonds hv, ?_⟩
      rw [Function.comp_apply, if_pos (hpv _ (mem_bonds hv) rfl)]
      split <;> rfl
    have hafree : audio.bond.clear ∈ ((t.unlinkAudio video.id).unlinkAudio audio.id).bonds := by
      have hmem := List.mem_map_of_mem (f := fun b => if p b then b.clear else b) (mem_bonds ha)
      rw [← hp] at hmem
      rw [hq]
      refine List.mem_map.2 ⟨_, hmem, ?_⟩
      rw [if_pos (hqa _ hmem (by split <;> rfl))]
      split <;> rfl
    refine ⟨by simpa using h₂.trackIds, ?_⟩
    rw [bonds_mapClips (g := Bond.link video.id audio.id) fun c => by
      cases hcv : c.id == video.id <;> cases hca : c.id == audio.id <;>
        simp [Bond.link, Clip.bond, hcv, hca]]
    exact h₂.matched.link hvfree hafree hvideo haudio rfl rfl
  · exact h

theorem exists_clip {kind : MediaKind} {there back : Bond → Option String}
    (h : Answered kind there back t.bonds) {c : Clip α} (hc : c ∈ t.allClips) {i : String}
    (hi : there c.bond = some i) : ∃ d ∈ t.allClips, d.id = i ∧ back d.bond = some c.id := by
  obtain ⟨-, b, hb, hbi, hback⟩ := h c.bond (mem_bonds hc) i hi
  obtain ⟨d, hd, rfl⟩ := List.mem_map.1 hb
  exact ⟨d, hd, hbi, hback⟩

theorem isMutual (h : t.Linked) : t.Mutual :=
  ⟨fun _ hc _ => exists_clip h.matched.forth hc, fun _ hc _ => exists_clip h.matched.back hc⟩

variable [Scalar α]

theorem append (h : t.Linked) {id : String} {kind : TrackKind} (hb : track.Blank id kind)
    (hid : id ∉ t.tracks.map (·.id)) (hu : u.tracks = t.tracks ++ [track]) : u.Linked where
  trackIds := by
    rw [hu, List.map_append, List.map_singleton, hb.id, ← List.concat_eq_append]
    exact h.trackIds.concat hid
  matched := bonds_append hb hu ▸ h.matched

theorem exchanged (h : t.Linked) (he : u = t ∨ t.Exchanged u) : u.Linked := by
  rcases he with rfl | he
  · exact h
  · refine h.of_perm ?_ (bonds_perm_of_exchanged h.trackIds h.clipIds he)
    cases he <;> simp

theorem retuned (h : t.Linked) (hu : u = t ∨ t.Retuned u) : u.Linked := by
  rcases hu with rfl | ⟨track, ht, muted, locked, gain, -, rfl⟩
  · exact h
  · exact h.of_perm (by simp) (bonds_perm_of_replaceTrack h.trackIds ht rfl (.refl _))

/-! ## Tracks and clips -/

theorem setAspectRatio (h : t.Linked) {ratio : Json α} (hu : t.setAspectRatio ratio = .valid u) :
    u.Linked := by
  unfold Timeline.setAspectRatio at hu
  rw [Report.map_eq_valid] at hu
  obtain ⟨v, hv, rfl⟩ := hu
  obtain ⟨hids, hbonds⟩ := bonds_of_read hv
  have hlinked : v.Linked := h.of_perm hids (.of_eq hbonds)
  exact hlinked.of_tracks_eq rfl

theorem addClip (h : t.Linked) {asset : Asset α} {start : α}
    (hgiven : ∀ id ∈ given, id ∉ t.allClips.map (·.id))
    (hfresh : Ids.Fresh ids rest (t.allClips.map (·.id)))
    (hu : t.addClip trackId asset start given ids = (u, rest)) : u.Linked := by
  rcases addClip_cases hu with ⟨rfl, -⟩ | ⟨track, ht, -, -, rfl, rfl⟩
  · exact h
  · have hnew := hfresh.choose hgiven
    rw [← bonds_ids] at hnew
    refine ⟨by simpa using h.trackIds, ?_⟩
    exact (h.matched.add (ids.choose_ne_empty given) hnew).perm (bonds_place h.trackIds ht _)

theorem moveClip_bonds (h : t.Linked) (clipId trackId : String) (start : α) :
    (t.moveClip clipId trackId start).bonds.Perm t.bonds := by
  rcases moveClip_cases t clipId trackId start with
    he | ⟨source, hs, target, ht, clip, hc, rfl, -, -, ⟨hid, he⟩ | ⟨hne, he⟩⟩ <;> rw [he]
  · refine bonds_perm_of_replaceTrack h.trackIds hs rfl ((bonds_settle _ _).trans (.of_eq ?_))
    exact map_replaceClip (nodup_clipIds h.clipIds hs) hc rfl rfl
  · -- The clip leaves its track, which is not the one that takes it.
    refine List.Perm.trans ?_ (bonds_take h.trackIds h.clipIds hs hc).symm
    refine bonds_place (by simpa using h.trackIds) ?_ _
    exact List.mem_map.2 ⟨target, ht, if_neg (by simpa using Ne.symm hne)⟩

theorem moveClip (h : t.Linked) (clipId trackId : String) (start : α) :
    (t.moveClip clipId trackId start).Linked := by
  refine h.of_perm ?_ (h.moveClip_bonds clipId trackId start)
  rcases moveClip_cases t clipId trackId start with
    he | ⟨_, _, _, _, _, _, _, _, _, ⟨_, he⟩ | ⟨_, he⟩⟩ <;> simp [he]

theorem splitClip (h : t.Linked) {time : α} (hgiven : ∀ id ∈ given, id ∉ t.allClips.map (·.id))
    (hfresh : Ids.Fresh ids rest (t.allClips.map (·.id)))
    (hu : t.splitClip clipId time given ids = (u, rest)) : u.Linked := by
  rcases splitClip_cases hu with
    ⟨rfl, -⟩ | ⟨track, ht, clip, hc, rfl, -, rfl, transitions, -, rfl⟩
  · exact h
  have hnew := hfresh.choose hgiven
  have hne := ids.choose_ne_empty given
  generalize (ids.choose given).1 = id at hne hnew
  obtain ⟨others, hbonds, hcut⟩ := bonds_cut h.trackIds h.clipIds ht hc
    (headPart clip time) (tailPart clip id time)
  have hsplit := h.matched.perm hbonds.symm
  -- Both parts are free, and what was linked to the clip is let go of.
  have hfree : Matched (Bond.free clip.id clip.kind :: Bond.free id clip.kind ::
      others.map (Bond.unlink [clip.id])) := by
    have hids : (others.map (Bond.unlink [clip.id])).map (·.id) = others.map (·.id) := by
      simp [Bond.unlink]
    rw [← bonds_ids, (hbonds.map (·.id)).mem_iff] at hnew
    obtain ⟨hidne, hidnew⟩ := not_or.1 (List.mem_cons.not.1 hnew)
    have hclip : clip.id ∉ others.map (·.id) := (List.nodup_cons.1 hsplit.ids).1
    refine (hsplit.drop_one.add hne (hids ▸ hidnew)).add (hsplit.named clip.bond (by simp)) ?_
    show clip.id ∉ id :: (others.map (Bond.unlink [clip.id])).map (·.id)
    rw [hids, List.mem_cons, not_or]
    exact ⟨Ne.symm hidne, hclip⟩
  dsimp only
  split
  · refine ⟨by simpa using h.trackIds, ?_⟩
    rw [bonds_unlink]
    exact hfree.perm (hcut.map _)
  · next hlinks =>
    simp only [Bool.or_eq_true, not_or, Bool.not_eq_true, Option.isSome_eq_false_iff,
      Option.isNone_iff_eq_none] at hlinks
    have hclear : clip.bond.clear = clip.bond := by simp [Bond.clear, Clip.bond, hlinks]
    have hkeep : others.map (Bond.unlink [clip.id]) = others :=
      (List.map_congr_left fun c hc => hsplit.unlink_eq_self (by simp) hclear
        (List.mem_cons_of_mem _ hc)).trans (List.map_id _)
    rw [hkeep] at hfree
    exact ⟨by simpa using h.trackIds, hfree.perm hcut⟩

/-! ## Links -/

/-- **There is nothing to repair** where links match. -/
theorem repairLinks_eq (h : t.Linked) : t.repairLinks = t := h.isMutual.repairLinks_eq h.clipIds

/-- A video clip whose sound can be detached has no links yet. -/
theorem free_of_detachable (h : t.Linked) {video : Clip α}
    (hvideo : t.detachable? clipId = some video) :
    video.detachedAudio = none ∧ video.linkedVideo = none := by
  obtain ⟨hv, -, hkind, hdetached⟩ := detachable?_eq_some hvideo
  constructor
  · refine Option.eq_none_iff_forall_not_mem.2 fun i hi => ?_
    obtain ⟨c, hc, rfl, -⟩ := exists_clip h.matched.forth hv hi
    have hfind : t.findClip c.id = some c := find?_key_eq_some h.clipIds hc rfl
    have hne : c.id ≠ "" := h.matched.named c.bond (mem_bonds hc)
    have hvoid : Label.isVoid α c.id = false := by
      simpa [Label.isVoid, Label.data, Json.isVoid] using hne
    simp [isDetached, Option.mem_def.1 hi, hfind, hvoid] at hdetached
  · refine Option.eq_none_iff_forall_not_mem.2 fun i hi => ?_
    have haudio : video.kind = .audio := (h.matched.back video.bond (mem_bonds hv) i hi).1
    rw [hkind] at haudio
    cases haudio

theorem audioTrack (h : t.Linked) (hfresh : Ids.Fresh ids rest (t.tracks.map (·.id)))
    (ha : t.audioTrack ids = (u, rest, some track)) :
    u.Linked ∧ track ∈ u.tracks ∧ u.bonds = t.bonds := by
  obtain ⟨found, -, ⟨hmem, -, he⟩ | ⟨hblank, he⟩⟩ := t.audioTrack_cases ids <;> rw [he] at ha <;>
    cases ha
  · exact ⟨h, hmem, rfl⟩
  · exact ⟨h.append hblank (hfresh.next (Nat.lt_succ_self _)) rfl, by simp, bonds_append hblank rfl⟩

theorem detachAudio (h : t.Linked) (htracks : Ids.Fresh ids rest (t.tracks.map (·.id)))
    (hgiven : ∀ id ∈ given, id ∉ t.allClips.map (·.id))
    (hfresh : Ids.Fresh ids rest (t.allClips.map (·.id)))
    (hu : t.detachAudio clipId given ids = .ok (u, rest)) : u.Linked := by
  rcases detachAudio_cases hu with
    ⟨rfl, -⟩ | ⟨video, t₁, ids₁, track, audio, hvideo, htrack, rfl, haudio, rfl⟩
  · exact h
  obtain ⟨hv, -, hkind, -⟩ := detachable?_eq_some hvideo
  obtain ⟨hd, hl⟩ := h.free_of_detachable hvideo
  rw [show isDetached video = false by rw [isDetached, hd]; rfl,
    if_neg Bool.false_ne_true] at htrack
  obtain ⟨h₁, ht, hbonds⟩ := h.audioTrack (htracks.of_le_right (ids₁.le_choose given)) htrack
  have hid := (hfresh.of_le_left (audioTrack_le htrack)).choose hgiven
  rw [← bonds_ids] at hid
  have hadded : Matched (Bond.free _ .audio :: t.bonds) :=
    h.matched.add (ids₁.choose_ne_empty given) hid
  have hkept := Clip.kept_of_recheck haudio
  generalize (ids₁.choose given).1 = id at hid hadded hkept
  have hbond : audio.bond = ⟨id, .audio, none, some video.id⟩ := hkept.bond
  have haid : audio.id = id := hkept.id
  have hlinked := hadded.link (v := video.bond) (a := Bond.free id .audio)
    (List.mem_cons_of_mem _ (mem_bonds hv)) List.mem_cons_self hkind rfl
    (by simp [Bond.clear, Clip.bond, hd, hl]) rfl
  refine ⟨by simpa using h₁.trackIds, ?_⟩
  rw [bonds_mapClips (g := fun b =>
    if b.id == video.id then { b with detached := some audio.id } else b) fun c => by
      cases hcv : c.id == video.id <;> simp [Clip.bond, hcv]]
  refine hlinked.perm (((bonds_place h₁.trackIds ht _).map _).trans (.of_eq ?_))
  -- The new clip comes linked to the video clip, which is linked to it in turn.
  have hne : ∀ b ∈ t.bonds, b.id ≠ id := fun b hb he => hid (he ▸ List.mem_map_of_mem hb)
  rw [hbonds, List.map_cons, List.map_cons, hbond, haid]
  congr 1
  · have hvne : id ≠ video.id := (hne video.bond (mem_bonds hv)).symm
    simp [Bond.link, Bond.free, Clip.bond, hvne]
  · refine List.map_congr_left fun b hb => ?_
    simp [Bond.link, Bond.free, Clip.bond, hne b hb]

end Linked

end Montage.Timeline
