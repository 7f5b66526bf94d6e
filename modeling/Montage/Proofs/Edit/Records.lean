/-
What stands outside the clips, under the steps that edits are made of.

Transitions and looks name clips, and overlays name text tracks. A step keeps
what they name (`Timeline.Keeps`) when it takes no clip and no text track away, and
adds no transition, no look, and no overlay on another track. Most edits are such
steps; the lemmas here say so, once for each.
-/
import Montage.Proofs.Edit.Links

namespace Montage

variable {α : Type}

/-- What tells a transition apart, and where it stands. -/
def Transition.key (x : Transition α) : String × String × Side := (x.id, x.clipId, x.side)

namespace Timeline

variable {t u v : Timeline α} {track new : Track α} {ids rest : Ids} {clipId trackId : String}
  {given : Option String}

def clipIds (t : Timeline α) : List String := t.allClips.map (·.id)

/-- Whether there is a text track of an id. -/
def HasText (t : Timeline α) (id : String) : Prop :=
  ∃ track ∈ t.tracks, track.id = id ∧ track.kind = .text

/-- A timeline with all clips and text tracks of another one, and no more transitions, looks
and tracks of overlays. -/
structure Keeps (t u : Timeline α) : Prop where
  clips : t.clipIds ⊆ u.clipIds
  texts : ∀ id, t.HasText id → u.HasText id
  transitions : (u.transitions.map Transition.key).Sublist (t.transitions.map Transition.key)
  looks : (u.looks.map (·.clipId)).Sublist (t.looks.map (·.clipId))
  overlays : u.overlays.map (·.trackId) ⊆ t.overlays.map (·.trackId)

namespace Keeps

theorem refl (t : Timeline α) : t.Keeps t := ⟨fun _ => id, fun _ => id, .refl _, .refl _, fun _ => id⟩

theorem trans (h : t.Keeps u) (h' : u.Keeps v) : t.Keeps v where
  clips := List.Subset.trans h.clips h'.clips
  texts id hid := h'.texts id (h.texts id hid)
  transitions := h'.transitions.trans h.transitions
  looks := h'.looks.trans h.looks
  overlays := List.Subset.trans h'.overlays h.overlays

/-- A step on the tracks alone. -/
theorem of_tracks {tracks : List (Track α)} (hclips : t.clipIds ⊆ clipIds { t with tracks })
    (htexts : ∀ id, t.HasText id → HasText { t with tracks } id) : t.Keeps { t with tracks } :=
  ⟨hclips, htexts, .refl _, .refl _, fun _ => id⟩

/-- A step on what stands outside the clips. -/
theorem of_records (htracks : u.tracks = t.tracks)
    (hx : (u.transitions.map Transition.key).Sublist (t.transitions.map Transition.key))
    (hl : (u.looks.map (·.clipId)).Sublist (t.looks.map (·.clipId)))
    (ho : u.overlays.map (·.trackId) ⊆ t.overlays.map (·.trackId)) : t.Keeps u where
  clips := by simp [clipIds, allClips, htracks]
  texts id hid := by rwa [HasText, htracks]
  transitions := hx
  looks := hl
  overlays := ho

end Keeps

theorem clipIds_of_bonds (h : u.bonds.Perm t.bonds) : t.clipIds ⊆ u.clipIds := fun i hi => by
  rw [clipIds, ← bonds_ids] at hi ⊢
  exact (h.map (·.id)).mem_iff.2 hi

/-! ## Steps -/

@[simp] theorem clipIds_renewed (t : Timeline α) (b : Bool) : (t.renewed b).clipIds = t.clipIds := by
  cases b <;> rfl

theorem keeps_renewed (t : Timeline α) (b : Bool) : t.Keeps (t.renewed b) := by
  cases b <;> exact ⟨fun _ => id, fun _ => id, .refl _, .refl _, fun _ => id⟩

theorem hasText_mapClips {f : Clip α → Clip α} {id : String} (h : t.HasText id) :
    (t.mapClips f).HasText id := by
  obtain ⟨x, hx, hid, hkind⟩ := h
  exact ⟨_, List.mem_map_of_mem hx, hid, hkind⟩

theorem keeps_mapClips {f : Clip α → Clip α} (hf : ∀ c, (f c).id = c.id) :
    t.Keeps (t.mapClips f) :=
  .of_tracks (fun i hi => by
    show i ∈ (t.mapClips f).allClips.map (·.id)
    rw [allClips_mapClips, List.map_map]
    simpa [Function.comp_def, hf, clipIds] using hi) fun _ => hasText_mapClips

theorem hasText_replaceTrack (hn : (t.tracks.map (·.id)).Nodup) (ht : track ∈ t.tracks)
    (hid : new.id = track.id) (hkind : new.kind = track.kind) {id : String} (h : t.HasText id) :
    (t.replaceTrack new).HasText id := by
  obtain ⟨x, hx, rfl, htext⟩ := h
  by_cases he : x.id = new.id
  · have hsame : x = track := List.inj_on_of_nodup_map hn hx ht (he.trans hid)
    subst hsame
    exact ⟨new, List.mem_map.2 ⟨x, hx, by simp [hid]⟩, hid, hkind.trans htext⟩
  · exact ⟨x, List.mem_map.2 ⟨x, hx, by simp [he]⟩, rfl, htext⟩

/-- The clips of a track are exchanged, and those that there were are among them. -/
theorem keeps_replaceTrack (hn : (t.tracks.map (·.id)).Nodup) (ht : track ∈ t.tracks)
    (hid : new.id = track.id) (hkind : new.kind = track.kind)
    (hclips : t.clipIds ⊆ (t.replaceTrack new).clipIds) : t.Keeps (t.replaceTrack new) :=
  .of_tracks hclips fun _ => hasText_replaceTrack hn ht hid hkind

theorem keeps_append (t : Timeline α) (track : Track α) :
    t.Keeps { t with tracks := t.tracks ++ [track] } :=
  .of_tracks (by simp [clipIds, allClips]) fun _ ⟨x, hx, h⟩ => ⟨x, List.mem_append_left _ hx, h⟩

/-! ## Clips -/

theorem keeps_unlinkAudio (t : Timeline α) (clipId : String) : t.Keeps (t.unlinkAudio clipId) := by
  unfold Timeline.unlinkAudio
  split
  · exact .refl t
  · exact keeps_mapClips fun c => by split <;> rfl

theorem keeps_linkAudio (t : Timeline α) (videoId audioId : String) :
    t.Keeps (t.linkAudio videoId audioId) := by
  unfold Timeline.linkAudio
  split
  · refine ((t.keeps_unlinkAudio videoId).trans (keeps_unlinkAudio _ audioId)).trans ?_
    exact keeps_mapClips fun c => by split <;> [rfl; split <;> rfl]
  · exact .refl t

variable [Scalar α]

theorem Linked.keeps_exchanged (h : t.Linked) (he : u = t ∨ t.Exchanged u) : t.Keeps u := by
  rcases he with rfl | he
  · exact .refl u
  · have hclips := clipIds_of_bonds (bonds_perm_of_exchanged h.trackIds h.clipIds he)
    cases he <;> rw [clipIds_renewed] at hclips
    case changed b ht _ _ _ _ =>
      exact (keeps_replaceTrack h.trackIds ht (by rfl) (by rfl) hclips).trans (keeps_renewed _ b)
    case stretched time b ht _ =>
      exact (keeps_replaceTrack h.trackIds ht (by rfl) (by rfl) hclips).trans (keeps_renewed _ b)

theorem Linked.keeps_retuned (h : t.Linked) (hu : u = t ∨ t.Retuned u) : t.Keeps u := by
  rcases hu with rfl | ⟨track, ht, muted, locked, gain, -, rfl⟩
  · exact .refl u
  · exact keeps_replaceTrack h.trackIds ht rfl rfl
      (clipIds_of_bonds (bonds_perm_of_replaceTrack h.trackIds ht rfl (.refl _)))

theorem keeps_place (hn : (t.tracks.map (·.id)).Nodup) (ht : track ∈ t.tracks) (clip : Clip α) :
    t.Keeps (t.replaceTrack (track.settle (track.clips ++ [clip]))) := by
  refine keeps_replaceTrack hn ht rfl rfl fun i hi => ?_
  rw [clipIds, ← bonds_ids] at hi ⊢
  exact ((bonds_place hn ht clip).map (·.id)).mem_iff.2 (List.mem_cons_of_mem _ hi)

theorem Linked.keeps_addClip (h : t.Linked) {asset : Asset α} {start : α}
    (hu : t.addClip trackId asset start given ids = (u, rest)) : t.Keeps u := by
  rcases addClip_cases hu with ⟨rfl, -⟩ | ⟨track, ht, -, -, -, rfl⟩
  · exact .refl u
  · exact keeps_place h.trackIds ht _

theorem Linked.keeps_moveClip (h : t.Linked) (clipId trackId : String) (start : α) :
    t.Keeps (t.moveClip clipId trackId start) := by
  have hclips := clipIds_of_bonds (h.moveClip_bonds clipId trackId start)
  rcases moveClip_cases t clipId trackId start with
    he | ⟨source, hs, target, ht, clip, hc, rfl, -, -, ⟨hid, he⟩ | ⟨hne, he⟩⟩ <;> rw [he] at hclips ⊢
  · exact .refl t
  · exact keeps_replaceTrack h.trackIds hs rfl rfl hclips
  · refine .of_tracks hclips fun id hid => ?_
    have hleft : (t.replaceTrack { source with
        clips := source.clips.filter (·.id != clip.id) }).HasText id :=
      hasText_replaceTrack h.trackIds hs (by rfl) (by rfl) hid
    have ht' : target ∈ (t.replaceTrack { source with
        clips := source.clips.filter (·.id != clip.id) }).tracks :=
      List.mem_map.2 ⟨target, ht, if_neg (by simpa using Ne.symm hne)⟩
    exact hasText_replaceTrack (by simpa using h.trackIds) ht' (by rfl) (by rfl) hleft

theorem audioTrack_keeps (ha : t.audioTrack ids = (u, rest, some track)) : t.Keeps u := by
  obtain ⟨found, -, ⟨-, -, he⟩ | ⟨-, he⟩⟩ := t.audioTrack_cases ids <;> rw [he] at ha <;> cases ha
  · exact .refl t
  · exact t.keeps_append _

theorem Linked.keeps_detachAudio (h : t.Linked) (htracks : Ids.Fresh ids rest (t.tracks.map (·.id)))
    (hu : t.detachAudio clipId given ids = .ok (u, rest)) : t.Keeps u := by
  rcases detachAudio_cases hu with
    ⟨rfl, -⟩ | ⟨video, t₁, ids₁, track, audio, -, htrack, rfl, -, rfl⟩
  · exact .refl u
  rw [h.repairLinks_eq, ite_self] at htrack
  obtain ⟨h₁, ht, -⟩ := h.audioTrack (htracks.of_le_right (ids₁.le_choose given)) htrack
  refine ((audioTrack_keeps htrack).trans (keeps_place h₁.trackIds ht audio)).trans ?_
  exact keeps_mapClips fun c => by split <;> rfl

end Timeline

/-! ## Records read back -/

section Read

variable [Scalar α] {fs : Fields α} {id : String}

theorem Transition.key_of_read {x y : Transition α} (h : Transition.read x.fields = .valid y) :
    x.key = y.key := by
  unfold Transition.read at h
  simp only [Report.seq_eq_valid, Report.functor_map_eq_valid] at h
  obtain ⟨_, _, ⟨_, _, ⟨_, _, ⟨_, _, ⟨_, hid, rfl⟩, hclip, rfl⟩, -, rfl⟩, -, rfl⟩, hside, rfl⟩ := h
  simp [fields, Fields.require, Fields.withDefault] at hid hclip hside
  rw [key, hid, hclip, hside]
  rfl

theorem Look.clipId_of_read {l : Look α} (h : Look.read fs = .valid l)
    (hget : fs.get? "clip_id" = some (Label.data id)) : l.clipId = id := by
  unfold Look.read at h
  simp only [Report.seq_eq_valid, Report.functor_map_eq_valid] at h
  obtain ⟨_, _, ⟨_, _, ⟨_, _, ⟨_, _, ⟨_, _, ⟨_, _, ⟨_, _, ⟨clip, hclip, rfl⟩, -, rfl⟩, -, rfl⟩, -, rfl⟩,
    -, rfl⟩, -, rfl⟩, -, rfl⟩, -, rfl⟩ := h
  have hid : id = clip := by simpa [Fields.require, hget] using hclip
  exact hid.symm

theorem Overlay.trackId_of_read {o : Overlay α} (h : Overlay.read fs = .valid o)
    (hget : fs.get? "track_id" = some (.text id)) : o.trackId = id := by
  unfold Overlay.read at h
  simp only [Report.seq_eq_valid, Report.functor_map_eq_valid] at h
  obtain ⟨_, _, ⟨_, _, ⟨_, _, ⟨_, _, ⟨_, _, ⟨_, _, ⟨_, _, ⟨_, _, ⟨_, _, ⟨_, _, ⟨_, _, ⟨_, track, ⟨_, -, rfl⟩,
    htrack, rfl⟩, -, rfl⟩, -, rfl⟩, -, rfl⟩, -, rfl⟩, -, rfl⟩, -, rfl⟩, -, rfl⟩, -, rfl⟩, -, rfl⟩,
    -, rfl⟩, -, rfl⟩ := h
  have hid : id = track := by simpa [Fields.require, hget] using htrack
  exact hid.symm

/-- The overlays, transitions and looks of a timeline that is read back with another shape. -/
theorem Timeline.read_records {t u : Timeline α} {ratio : Json α}
    (hr : Timeline.read (t.fields.put "aspect_ratio" ratio) = .valid u) :
    List.Forall₂ (fun x y => Overlay.read x.fields = .valid y) t.overlays u.overlays ∧
      List.Forall₂ (fun x y => Transition.read x.fields = .valid y) t.transitions u.transitions ∧
      List.Forall₂ (fun x y => Look.read x.fields = .valid y) t.looks u.looks := by
  unfold Timeline.read at hr
  simp only [Report.seq_eq_valid, Report.functor_map_eq_valid] at hr
  obtain ⟨_, _, ⟨_, _, ⟨_, _, ⟨_, _, ⟨_, _, ⟨_, -, rfl⟩, -, rfl⟩, -, rfl⟩, ho, rfl⟩, hx, rfl⟩, hl, rfl⟩ := hr
  have hget {β : Type} {name : String} {bs : List β} {fields : β → Fields α}
      (h : t.fields.get? name = some (.list (bs.map fun b => .object (fields b))))
      (hne : "aspect_ratio" ≠ name) : (t.fields.put "aspect_ratio" ratio).get? name =
        some (.list (bs.map fun b => .object (fields b))) := by
    rw [Fields.get?_put, if_neg hne, h]
  exact ⟨read_list_eq_valid.1 ((Fields.withDefault_of_get? (hget rfl (by decide))).1 ho),
    read_list_eq_valid.1 ((Fields.withDefault_of_get? (hget rfl (by decide))).1 hx),
    read_list_eq_valid.1 ((Fields.withDefault_of_get? (hget rfl (by decide))).1 hl)⟩

end Read

namespace Timeline

variable [Scalar α] {t u : Timeline α} {overlayId : String}

theorem keeps_of_read {ratio : Json α}
    (hr : Timeline.read (t.fields.put "aspect_ratio" ratio) = .valid u) : t.Keeps u := by
  obtain ⟨ho, hx, hl⟩ := read_records hr
  have hkinds : t.tracks.map (fun x => (x.id, x.kind)) = u.tracks.map fun x => (x.id, x.kind) :=
    map_eq_of_forall₂ ((read_tracks hr).imp fun x y hxy => by
      obtain ⟨hid, hkind, -⟩ := Track.kept_of_read hxy
      rw [hid, hkind])
  have hkeys := map_eq_of_forall₂ (hx.imp fun _ _ => Transition.key_of_read)
  have hclips : t.looks.map (·.clipId) = u.looks.map (·.clipId) :=
    map_eq_of_forall₂ (hl.imp fun _ _ hxy => (Look.clipId_of_read hxy rfl).symm)
  have htracks : t.overlays.map (·.trackId) = u.overlays.map (·.trackId) :=
    map_eq_of_forall₂ (ho.imp fun _ _ hxy => (Overlay.trackId_of_read hxy rfl).symm)
  refine ⟨clipIds_of_bonds (.of_eq (bonds_of_read hr).2), fun id hid => ?_, by rw [hkeys],
    by rw [hclips], by rw [htracks]; exact List.Subset.refl _⟩
  obtain ⟨x, hx, rfl, htext⟩ := hid
  have hmem := List.mem_map_of_mem (f := fun x => (x.id, x.kind)) hx
  rw [hkinds] at hmem
  obtain ⟨y, hy, he⟩ := List.mem_map.1 hmem
  rw [Prod.mk.injEq] at he
  exact ⟨y, hy, he.1, he.2.trans htext⟩

theorem keeps_setAspectRatio {ratio : Json α} (hu : t.setAspectRatio ratio = .valid u) :
    t.Keeps u := by
  unfold setAspectRatio at hu
  rw [Report.map_eq_valid] at hu
  obtain ⟨v, hv, rfl⟩ := hu
  exact (keeps_of_read hv).trans ⟨fun _ => id, fun _ => id, .refl _, .refl _, fun _ => id⟩

/-! ## Overlays, transitions and looks -/

theorem keeps_settleOverlays (t : Timeline α) (trackId : String) :
    t.Keeps (t.settleOverlays trackId) := by
  refine .of_records rfl (.refl _) (.refl _) fun i hi => ?_
  obtain ⟨p, hp, rfl⟩ := List.mem_map.1 hi
  obtain ⟨o, ho, rfl⟩ := List.mem_map.1 hp
  cases hfind : (resolve (t.overlaysOn trackId)).reverse.find? (·.id == o.id) with
  | none => exact List.mem_map.2 ⟨o, ho, by simp⟩
  | some q =>
    have hq := List.mem_reverse.1 (List.mem_of_find?_eq_some hfind)
    have htracks := resolve_map_perm (f := Overlay.trackId) (fun _ _ => rfl) (t.overlaysOn trackId)
    obtain ⟨r, hr, he⟩ := List.mem_map.1 (htracks.mem_iff.1 (List.mem_map_of_mem hq))
    exact List.mem_map.2 ⟨r, List.mem_of_mem_filter hr, by simpa [hfind] using he⟩

theorem keeps_updateOverlay {changes : Fields α}
    (h : t.updateOverlay overlayId changes = .ok u) : t.Keeps u := by
  unfold updateOverlay at h
  split at h
  · cases h
    exact .refl t
  next overlay hfind =>
  dsimp only at h
  split at h
  · cases h
  next hknown =>
  rw [bind_eq_ok] at h
  obtain ⟨changed, hchanged, h⟩ := h
  have hedit : ∀ change ∈ changes, Overlay.editable.contains change.1 = true := by
    simpa using hknown
  have hhas : changes.has "track_id" = false := List.any_eq_false.2 fun change hc he => by
    have := hedit change hc
    rw [beq_iff_eq.1 he] at this
    cases this
  have htrack : changed.trackId = overlay.trackId := by
    refine Overlay.trackId_of_read (Report.orRefuse_eq_ok.1 hchanged) ?_
    rw [Fields.get?_override_of_not_has hhas]
    rfl
  have hupdated : t.Keeps { t with overlays := t.overlays.map fun o =>
      if o.id == overlayId then changed else o } := by
    refine .of_records rfl (.refl _) (.refl _) fun i hi => ?_
    obtain ⟨p, hp, rfl⟩ := List.mem_map.1 hi
    obtain ⟨o, ho, rfl⟩ := List.mem_map.1 hp
    split
    · exact List.mem_map.2 ⟨overlay, List.mem_of_find?_eq_some hfind, htrack.symm⟩
    · exact List.mem_map_of_mem ho
  split at h <;> cases h
  · exact hupdated.trans (keeps_settleOverlays _ _)
  · exact hupdated

omit [Scalar α] in
theorem keeps_removeOverlay (t : Timeline α) (overlayId : String) :
    t.Keeps (t.removeOverlay overlayId) :=
  .of_records rfl (.refl _) (.refl _) (List.map_subset _ (List.filter_subset_self ..))

omit [Scalar α] in
theorem keeps_removeTransition (t : Timeline α) (clipId : String) (side : Option Side) :
    t.Keeps (t.removeTransition clipId side) :=
  .of_records rfl (List.filter_sublist.map _) (.refl _) fun _ => id

omit [Scalar α] in
theorem keeps_resetLook (t : Timeline α) (clipId : String) : t.Keeps (t.resetLook clipId) :=
  .of_records rfl (.refl _) (List.filter_sublist.map _) fun _ => id

end Timeline

end Montage
