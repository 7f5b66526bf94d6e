/-
Every edit leaves what stands outside the clips attached to them.

In a timeline whose records are attached (`Timeline.Attached`) transitions and
looks name clips that are there, one a side and one a clip, and overlays name text
tracks. Edits that keep what records name keep them attached (`Attached.of_keeps`).
The others take records away along with what they name (`Attached.drop`), or add
records of what is there.
-/
import Montage.Proofs.Edit.Reachable
import Montage.Proofs.Edit.Records

namespace Montage

variable {α : Type}

/-- A list has no thing twice as seen by one view if it has none as seen by another, and
the first view tells apart what the second does. -/
theorem nodup_map_of_inj {β γ δ : Type} {f : β → γ} {g : β → δ} {l : List β}
    (hg : (l.map g).Nodup) (h : ∀ x ∈ l, ∀ y ∈ l, f x = f y → g x = g y) : (l.map f).Nodup := by
  rw [List.Nodup, List.pairwise_map] at hg ⊢
  exact hg.imp_of_mem fun hx hy hne he => hne (h _ hx _ hy he)

namespace Transition

/-- The clip and the side of it that a transition stands at. -/
def seat (x : Transition α) : String × Side := (x.clipId, x.side)

theorem rehomed_cases (x : Transition α) (clipId id : String) : x.rehomed clipId id = x ∨
    x.clipId = clipId ∧ x.side = .finish ∧ x.rehomed clipId id = { x with clipId := id } := by
  unfold rehomed
  split
  · next h =>
    rw [Bool.and_eq_true, beq_iff_eq, beq_iff_eq] at h
    exact .inr ⟨h.1, h.2, rfl⟩
  · exact .inl rfl

@[simp] theorem rehomed_id (x : Transition α) (clipId id : String) :
    (x.rehomed clipId id).id = x.id := by
  rcases x.rehomed_cases clipId id with he | ⟨-, -, he⟩ <;> rw [he]

end Transition

namespace Timeline

variable {t u : Timeline α} {track : Track α} {ids rest : Ids} {clipId trackId : String}
  {given : Option String}

/-- Transitions, looks and overlays that stand on what is there, no two of them at one place. -/
structure Attached (t : Timeline α) : Prop where
  transitionIds : (t.transitions.map (·.id)).Nodup
  transitions : ∀ x ∈ t.transitions, x.clipId ∈ t.clipIds
  seats : (t.transitions.map Transition.seat).Nodup
  looks : ∀ l ∈ t.looks, l.clipId ∈ t.clipIds
  looked : (t.looks.map (·.clipId)).Nodup
  overlays : ∀ o ∈ t.overlays, t.HasText o.trackId

theorem mem_clipIds_of_findClip [Scalar α] (h : ¬ (t.findClip clipId).isNone = true) :
    clipId ∈ t.clipIds := by
  cases hc : t.findClip clipId with
  | none => simp [hc] at h
  | some c =>
    obtain ⟨hmem, rfl⟩ := mem_of_findClip hc
    exact List.mem_map_of_mem hmem

theorem overlayTrack_eq_some [Scalar α] {id : String}
    (h : t.overlayTrack given ids = some (u, rest, id)) : t.Keeps u ∧ u.HasText id := by
  unfold overlayTrack at h
  split at h
  · split at h
    · next track htrack =>
      split at h <;> cases h
      next htext =>
      obtain ⟨hmem, rfl⟩ := mem_of_findTrack htrack
      exact ⟨.refl _, track, hmem, rfl, htext⟩
    · cases h
  · split at h
    · next track _ htracks =>
      cases h
      have hmem : track ∈ t.tracksOfKind [.text] := by simp [htracks]
      obtain ⟨hmem, htext⟩ := List.mem_filter.1 hmem
      exact ⟨.refl _, track, hmem, rfl, by simpa using htext⟩
    · obtain ⟨track, hblank, htrack⟩ := t.addTrack_cases .text none none ids
      simp only [htrack, List.getLast?_concat, Option.map_some, Option.some.injEq,
        Prod.mk.injEq] at h
      obtain ⟨rfl, -, rfl⟩ := h
      exact ⟨t.keeps_append track, track, by simp, rfl, hblank.kind⟩

namespace Attached

theorem empty (name : String) (ratio : AspectRatio) :
    Attached (.empty name ratio : Timeline α) := by
  constructor <;> simp [Timeline.empty]

theorem of_keeps (h : t.Attached) (hk : t.Keeps u) : u.Attached where
  transitionIds := by
    have hsub := hk.transitions.map Prod.fst
    rw [List.map_map, List.map_map] at hsub
    exact hsub.nodup h.transitionIds
  transitions x hx := by
    obtain ⟨y, hy, he⟩ := List.mem_map.1 (hk.transitions.subset (List.mem_map_of_mem hx))
    have hclip : y.clipId = x.clipId := congrArg (·.2.1) he
    exact hclip ▸ hk.clips (h.transitions y hy)
  seats := by
    have hsub := hk.transitions.map Prod.snd
    rw [List.map_map, List.map_map] at hsub
    exact hsub.nodup h.seats
  looks l hl := by
    obtain ⟨k, hk', he⟩ := List.mem_map.1 (hk.looks.subset (List.mem_map_of_mem hl))
    exact he ▸ hk.clips (h.looks k hk')
  looked := hk.looks.nodup h.looked
  overlays o ho := by
    obtain ⟨p, hp, he⟩ := List.mem_map.1 (hk.overlays (List.mem_map_of_mem ho))
    exact he ▸ hk.texts _ (h.overlays p hp)

/-! ## Taking away -/

/-- Clips are taken away, and their records with them. -/
theorem drop {v : Timeline α} {removed : List String} (h : t.Attached)
    (hx : v.transitions = t.transitions) (hl : v.looks = t.looks)
    (hclips : ∀ i ∈ t.clipIds, i ∉ removed → i ∈ v.clipIds)
    (ho : ∀ o ∈ v.overlays, v.HasText o.trackId) : (v.dropRecords removed).Attached := by
  unfold dropRecords
  split
  · next hnil =>
    obtain rfl := List.isEmpty_iff.1 hnil
    exact ⟨hx ▸ h.transitionIds, fun x hm => hclips _ (h.transitions x (hx ▸ hm)) (by simp),
      hx ▸ h.seats, fun l hm => hclips _ (h.looks l (hl ▸ hm)) (by simp), hl ▸ h.looked, ho⟩
  · refine of_keeps (t := { v with
      looks := v.looks.filter fun l => !removed.contains l.clipId
      transitions := v.transitions.filter fun x => !removed.contains x.clipId })
      ?_ (keeps_mapClips fun _ => rfl)
    rw [hx, hl]
    refine ⟨(List.filter_sublist.map _).nodup h.transitionIds, fun x hm => ?_,
      (List.filter_sublist.map _).nodup h.seats, fun l hm => ?_,
      (List.filter_sublist.map _).nodup h.looked, ho⟩
    · obtain ⟨hm, hkept⟩ := List.mem_filter.1 hm
      exact hclips _ (h.transitions x hm) (by simpa using hkept)
    · obtain ⟨hm, hkept⟩ := List.mem_filter.1 hm
      exact hclips _ (h.looks l hm) (by simpa using hkept)

theorem removeTrack (h : t.Attached) (hl : t.Linked) (trackId : String) :
    (t.removeTrack trackId).Attached := by
  unfold Timeline.removeTrack
  split
  · exact h
  next track htrack =>
  obtain ⟨ht, rfl⟩ := mem_of_findTrack htrack
  have hgone : t.bonds.Perm (track.clips.map Clip.bond ++ bonds { t with
      tracks := t.tracks.filter (·.id != track.id)
      overlays := t.overlays.filter (·.trackId != track.id) }) :=
    bonds_removeTrack hl.trackIds ht rfl
  refine h.drop rfl rfl (fun i hi hkept => ?_) fun o ho => ?_
  · rw [clipIds, ← bonds_ids] at hi ⊢
    have hmem := (hgone.map (·.id)).mem_iff.1 hi
    rw [List.map_append, List.mem_append, List.map_map] at hmem
    exact hmem.resolve_left hkept
  · obtain ⟨hmem, hne⟩ := List.mem_filter.1 ho
    obtain ⟨x, hx, hid, htext⟩ := h.overlays o hmem
    exact ⟨x, List.mem_filter.2 ⟨hx, hid ▸ hne⟩, hid, htext⟩

theorem removeClip (h : t.Attached) (hl : t.Linked) (clipId : String) :
    (t.removeClip clipId).Attached := by
  unfold Timeline.removeClip
  split
  · exact h
  next track clip hclip =>
  obtain ⟨ht, -, hc, rfl⟩ := editable?_eq_some hclip
  have htake := bonds_take hl.trackIds hl.clipIds ht hc
  refine h.drop rfl rfl (fun i hi hkept => ?_) fun o ho => ?_
  · rw [clipIds, ← bonds_ids] at hi ⊢
    have hmem := (htake.map (·.id)).mem_iff.1 hi
    exact (List.mem_cons.1 hmem).resolve_left fun he => hkept (List.mem_singleton.2 he)
  · exact hasText_replaceTrack hl.trackIds ht (by rfl) (by rfl) (h.overlays o ho)

/-! ## Cutting a clip -/

/-- The transitions at the end of a clip go to a new one. No two meet there, as none stood at
the new one before. -/
theorem rehome (h : t.Attached) {id : String} (hx : u.transitions =
    t.transitions.map (Transition.rehomed clipId id)) (hl : u.looks = t.looks)
    (ho : u.overlays = t.overlays) (hclips : t.clipIds ⊆ u.clipIds) (hid : id ∈ u.clipIds)
    (hnew : id ∉ t.clipIds) (htexts : ∀ i, t.HasText i → u.HasText i) : u.Attached where
  transitionIds := by
    have hids : u.transitions.map (·.id) = t.transitions.map (·.id) := by
      rw [hx, List.map_map]
      exact List.map_congr_left fun x _ => x.rehomed_id clipId id
    exact hids ▸ h.transitionIds
  transitions y hy := by
    rw [hx] at hy
    obtain ⟨x, hm, rfl⟩ := List.mem_map.1 hy
    rcases x.rehomed_cases clipId id with he | ⟨-, -, he⟩ <;> rw [he]
    · exact hclips (h.transitions x hm)
    · exact hid
  seats := by
    rw [hx, List.map_map]
    refine nodup_map_of_inj h.seats fun x hm y hm' he => ?_
    have hxid : x.clipId ≠ id := fun he => hnew (he ▸ h.transitions x hm)
    have hyid : y.clipId ≠ id := fun he => hnew (he ▸ h.transitions y hm')
    simp only [Function.comp_apply] at he
    rcases x.rehomed_cases clipId id with hxe | ⟨hxc, hxs, hxe⟩ <;>
      rcases y.rehomed_cases clipId id with hye | ⟨hyc, hys, hye⟩ <;> rw [hxe, hye] at he
    · exact he
    · exact absurd (congrArg Prod.fst he) hxid
    · exact absurd (congrArg Prod.fst he).symm hyid
    · rw [Transition.seat, Transition.seat, hxc, hxs, hyc, hys]
  looks l hm := hclips (h.looks l (hl ▸ hm))
  looked := hl ▸ h.looked
  overlays o hm := htexts _ (h.overlays o (ho ▸ hm))

variable [Scalar α]

theorem splitClip (h : t.Attached) (hl : t.Linked) {time : α}
    (hgiven : ∀ id ∈ given, id ∉ t.clipIds) (hfresh : Ids.Fresh ids rest t.clipIds)
    (hu : t.splitClip clipId time given ids = (u, rest)) : u.Attached := by
  rcases splitClip_cases hu with
    ⟨rfl, -⟩ | ⟨track, ht, clip, hc, rfl, -, rfl, transitions, hx, rfl⟩
  · exact h
  have hnew := hfresh.choose hgiven
  generalize (ids.choose given).1 = id at hnew hx
  obtain ⟨others, hbonds, hcut⟩ := bonds_cut hl.trackIds hl.clipIds ht hc
    (headPart clip time) (tailPart clip id time)
  dsimp only
  generalize hv : t.replaceTrack (track.settle (track.clips.flatMap fun c =>
    if c.id == clip.id then [headPart clip time, tailPart clip id time] else [c])) = v at hcut ⊢
  have hids : ∀ i, i ∈ v.clipIds ↔ i = clip.id ∨ i = id ∨ i ∈ others.map (·.id) := fun i => by
    rw [clipIds, ← bonds_ids, (hcut.map (·.id)).mem_iff]
    simp [Clip.bond, headPart, tailPart]
  have hattached : Attached { v with transitions } := by
    refine h.rehome hx (by rw [← hv]; rfl) (by rw [← hv]; rfl) (fun i hi => (hids i).2 ?_)
      ((hids id).2 (.inr (.inl rfl))) hnew fun i hi => ?_
    · rw [clipIds, ← bonds_ids, (hbonds.map (·.id)).mem_iff] at hi
      exact (List.mem_cons.1 hi).imp_right .inr
    · rw [← hv]
      exact hasText_replaceTrack hl.trackIds ht (by rfl) (by rfl) hi
  split
  · exact hattached.of_keeps (keeps_mapClips fun _ => rfl)
  · exact hattached

/-! ## Transitions and looks -/

theorem setTransition (h : t.Attached) {kind : TransitionKind} {duration : α} {side : Side}
    (hfresh : Ids.Fresh ids rest (t.transitions.map (·.id)))
    (hu : t.setTransition clipId kind duration side ids = (u, rest)) : u.Attached := by
  unfold Timeline.setTransition at hu
  dsimp only at hu
  split at hu
  · cases hu
    exact h
  next hclip =>
  split at hu
  · next old hold =>
    cases hu
    -- The one that is replaced stands where the new one does, and no other has its id.
    have hmem : old ∈ t.transitions := List.mem_of_find?_eq_some hold
    obtain ⟨hc, hs⟩ : old.clipId = clipId ∧ old.side = side := by
      simpa using List.find?_some hold
    refine h.of_keeps (.of_records rfl ?_ (.refl _) fun _ => id)
    rw [List.map_map, List.map_congr_left (g := Transition.key)]
    intro x hx
    rw [Function.comp_apply]
    split
    · next hid =>
      rw [List.inj_on_of_nodup_map h.transitionIds hx hmem (beq_iff_eq.1 hid)]
      simp [Transition.key, hc, hs]
    · rfl
  · next hnone =>
    cases hu
    have hid := hfresh.next (Nat.lt_succ_self _)
    have hseat : (clipId, side) ∉ t.transitions.map Transition.seat := fun hmem => by
      obtain ⟨x, hx, he⟩ := List.mem_map.1 hmem
      obtain ⟨rfl, rfl⟩ := Prod.mk.inj he
      simpa using List.find?_eq_none.1 hnone x hx
    refine { h with transitionIds := ?_, transitions := fun x hx => ?_, seats := ?_ }
    · rw [List.map_append, List.map_singleton, ← List.concat_eq_append]
      exact h.transitionIds.concat hid
    · rcases List.mem_append.1 hx with hx | hx
      · exact h.transitions x hx
      · rw [List.mem_singleton.1 hx]
        exact mem_clipIds_of_findClip hclip
    · rw [List.map_append, List.map_singleton, ← List.concat_eq_append]
      exact h.seats.concat hseat

theorem setLook (h : t.Attached) {params : Fields α} (hu : t.setLook clipId params = .ok u) :
    u.Attached := by
  unfold Timeline.setLook at hu
  split at hu
  · cases hu
    exact h
  next hclip =>
  rw [bind_eq_ok] at hu
  obtain ⟨look, hlook, hu⟩ := hu
  have hid : look.clipId = clipId :=
    Look.clipId_of_read (Report.orRefuse_eq_ok.1 hlook) (by rw [Fields.get?_put, if_pos rfl])
  cases hu
  refine { h with looks := fun l hl => ?_, looked := ?_ }
  · rcases List.mem_append.1 hl with hl | hl
    · exact h.looks l (List.mem_of_mem_filter hl)
    · rw [List.mem_singleton.1 hl, hid]
      exact mem_clipIds_of_findClip hclip
  · rw [List.map_append, List.map_singleton, ← List.concat_eq_append]
    refine ((List.filter_sublist.map _).nodup h.looked).concat fun hmem => ?_
    obtain ⟨l, hl, he⟩ := List.mem_map.1 hmem
    simpa [he, hid] using (List.mem_filter.1 hl).2

/-! ## Overlays -/

omit [Scalar α] in
/-- An overlay more, on a text track. -/
theorem append (h : t.Attached) {o : Overlay α} (ho : t.HasText o.trackId) :
    Attached { t with overlays := t.overlays ++ [o] } := by
  refine { h with overlays := fun p hp => ?_ }
  rcases List.mem_append.1 hp with hp | hp
  · exact h.overlays p hp
  · rwa [List.mem_singleton.1 hp]

theorem addOverlay (h : t.Attached) {text start overlayId : Json α} {style : Fields α}
    (hu : t.addOverlay text given start overlayId style ids = .ok (u, rest)) : u.Attached := by
  rcases addOverlay_eq_ok.1 hu with
    ⟨-, rfl, -⟩ | ⟨t₁, ids₁, trackId, place, o, htrack, -, -, ho, rfl, -⟩
  · exact h
  obtain ⟨hkeeps, htext⟩ := overlayTrack_eq_some htrack
  have htrackId : o.trackId = trackId :=
    Overlay.trackId_of_read ho (Fields.get?_override_of_all (by simp) (by simp))
  exact (h.of_keeps hkeeps).append (htrackId ▸ htext)

theorem moveOverlay (h : t.Attached) (overlayId trackId : String) :
    (t.moveOverlay overlayId trackId).Attached := by
  unfold Timeline.moveOverlay
  split
  · next overlay target _ htarget =>
    split
    · exact h
    · next hmove =>
      obtain ⟨hmem, rfl⟩ := mem_of_findTrack htarget
      have htext : target.kind = .text := by
        simp only [Bool.or_eq_true, not_or, bne_iff_ne, ne_eq, not_not] at hmove
        exact hmove.2
      refine of_keeps ?_ (keeps_settleOverlays _ _)
      refine { h with overlays := fun o ho => ?_ }
      obtain ⟨p, hp, rfl⟩ := List.mem_map.1 ho
      split
      · exact ⟨target, hmem, rfl, htext⟩
      · exact h.overlays p hp
  · exact h

/-! ## Every edit -/

/-- **Every edit leaves records attached.** -/
theorem run (h : t.Attached) (hl : t.Linked) {e : Edit α} (hgiven : e.GivesNew t)
    (hfresh : Ids.Fresh ids rest t.names) (hr : e.run t ids = .ok (u, rest)) : u.Attached := by
  have htracks := hfresh.of_subset t.trackIds_subset_names
  have hclips := hfresh.of_subset t.clipIds_subset_names
  cases e with
  | setProjectName name =>
    cases hr
    exact h.of_keeps (.of_records rfl (.refl _) (.refl _) fun _ => id)
  | setAspectRatio ratio =>
    have hr := Report.orRefuse_eq_ok.1 (eq_ok_of_map_pair hr)
    exact h.of_keeps (keeps_setAspectRatio hr)
  | addTrack kind name given =>
    obtain ⟨track, -, he⟩ := t.addTrack_cases kind name given ids
    rw [Edit.run, he] at hr
    cases hr
    exact h.of_keeps (t.keeps_append track)
  | removeTrack trackId =>
    cases hr
    exact h.removeTrack hl trackId
  | toggleTrackMute trackId =>
    cases hr
    exact h.of_keeps (hl.keeps_retuned (t.toggleTrackMute_cases trackId))
  | toggleTrackLock trackId =>
    cases hr
    exact h.of_keeps (hl.keeps_retuned (t.toggleTrackLock_cases trackId))
  | setTrackGain trackId gain =>
    cases hr
    exact h.of_keeps (hl.keeps_retuned (t.setTrackGain_cases trackId gain))
  | addClip trackId asset start given => exact h.of_keeps (hl.keeps_addClip (Except.ok.inj hr))
  | removeClip clipId =>
    cases hr
    exact h.removeClip hl clipId
  | updateClip clipId changes =>
    have hr := eq_ok_of_map_pair hr
    exact h.of_keeps (hl.keeps_exchanged (updateClip_cases hr))
  | trimClip clipId trimIn trimOut =>
    have hr := eq_ok_of_map_pair hr
    exact h.of_keeps (hl.keeps_exchanged (updateClip_cases hr))
  | resizeClip clipId edge time =>
    have hr := eq_ok_of_map_pair hr
    exact h.of_keeps (hl.keeps_exchanged (resizeClip_cases hr))
  | moveClip clipId trackId start =>
    cases hr
    exact h.of_keeps (hl.keeps_moveClip clipId trackId start)
  | splitClip clipId time given => exact h.splitClip hl hgiven hclips (Except.ok.inj hr)
  | detachAudio videoId given => exact h.of_keeps (hl.keeps_detachAudio htracks hr)
  | linkAudio videoId audioId =>
    cases hr
    exact h.of_keeps (t.keeps_linkAudio videoId audioId)
  | unlinkAudio clipId =>
    cases hr
    exact h.of_keeps (t.keeps_unlinkAudio clipId)
  | setClipAudioMuted clipId muted =>
    have hr := eq_ok_of_map_pair hr
    exact h.of_keeps (hl.keeps_exchanged (updateClip_cases hr))
  | repairLinks =>
    cases hr
    rw [hl.repairLinks_eq]
    exact h
  | addOverlay text trackId start overlayId style => exact h.addOverlay hr
  | updateOverlay overlayId changes =>
    have hr := eq_ok_of_map_pair hr
    exact h.of_keeps (keeps_updateOverlay hr)
  | removeOverlay overlayId =>
    cases hr
    exact h.of_keeps (t.keeps_removeOverlay overlayId)
  | moveOverlay overlayId trackId =>
    cases hr
    exact h.moveOverlay overlayId trackId
  | setTransition clipId kind duration side =>
    exact h.setTransition (hfresh.of_subset t.transitionIds_subset_names) (Except.ok.inj hr)
  | removeTransition clipId side =>
    cases hr
    exact h.of_keeps (t.keeps_removeTransition clipId side)
  | setLook clipId params =>
    have hr := eq_ok_of_map_pair hr
    exact h.setLook hr
  | resetLook clipId =>
    cases hr
    exact h.of_keeps (t.keeps_resetLook clipId)

end Attached

namespace Reachable

variable [Scalar α]

theorem attached (h : t.Reachable) : t.Attached := by
  induction h with
  | empty name ratio => exact .empty name ratio
  | step e ht hnew hfresh hr ih =>
    rw [Edit.apply_eq_run] at hr
    exact ih.run ht.linked hnew hfresh hr

/-- **Records in place.** In a timeline that is reached clips have ids of their own; each
transition and each look is of a clip that is there, no two transitions at one side of a clip
and no two looks of one clip; and each overlay is on a text track that is there. -/
theorem records_in_place (h : t.Reachable) :
    (t.allClips.map (·.id)).Nodup ∧
    (∀ x ∈ t.transitions, ∃ c ∈ t.allClips, c.id = x.clipId) ∧
    (t.transitions.map fun x => (x.clipId, x.side)).Nodup ∧
    (∀ l ∈ t.looks, ∃ c ∈ t.allClips, c.id = l.clipId) ∧
    (t.looks.map (·.clipId)).Nodup ∧
    ∀ o ∈ t.overlays, ∃ track ∈ t.tracks, track.id = o.trackId ∧ track.kind = .text :=
  have ha := h.attached
  ⟨h.linked.clipIds, fun x hx => List.mem_map.1 (ha.transitions x hx), ha.seats,
    fun l hl => List.mem_map.1 (ha.looks l hl), ha.looked, ha.overlays⟩

end Reachable

/-! ## Records on a timeline that is reached -/

/-- The timeline after an edit, or as it was if that is refused. -/
def after (t : Timeline Rat) (e : Edit Rat) : Timeline Rat :=
  match e.run t .start with
  | .ok (u, _) => u
  | .error _ => t

theorem Reachable.after {t : Timeline Rat} (h : t.Reachable) (e : Edit Rat) (hnew : e.GivesNew t)
    (hids : (e.run t .start).map (·.2) = .ok .start) : (t.after e).Reachable := by
  obtain ⟨r, hr, hids⟩ := map_eq_ok.1 hids
  rw [Timeline.after, hr]
  exact h.edit e hnew hr hids

theorem not_mem_of_contains {names : List String} {id : String} (h : names.contains id = false) :
    id ∉ names := by simpa using h

/-- An edit that issues the first name. -/
theorem Reachable.issuing {t u : Timeline Rat} (h : t.Reachable) (e : Edit Rat) (hnew : e.GivesNew t)
    (hfirst : t.names.contains Ids.start.next = false)
    (hr : e.run t .start = .ok (u, Ids.start.rest)) : u.Reachable := by
  have hfresh : Ids.Fresh .start Ids.start.rest t.names := fun n _ hlt => by
    obtain rfl : n = 0 := Nat.lt_one_iff.1 hlt
    exact not_mem_of_contains hfirst
  exact h.step e hnew hfresh ((e.apply_eq_run t .start).trans hr)

/-- The cut with a text over it, and a look. -/
def titledCut : Timeline Rat :=
  let t := (roughCut.addTrack .text none (some "x") .start).1
  let t := t.after (.addOverlay (.text "The end") (some "x") (.real 3) (.text "o") [])
  t.after (.setLook "b" [("sepia", .bool true)])

theorem titledCut_reachable : titledCut.Reachable := by
  have h := roughCut_reachable.edit (.addTrack .text none (some "x"))
    (by rintro _ ⟨⟩; exact not_mem_of_contains (by cbv)) rfl rfl
  have h := h.after (.addOverlay (.text "The end") (some "x") (.real 3) (.text "o") [])
    (by rintro _ ⟨⟩; exact not_mem_of_contains (by cbv)) (by cbv)
  exact h.after (.setLook "b" [("sepia", .bool true)]) trivial (by cbv)

/-- The titled cut with a transition at the end of a clip that is then cut in two. -/
def fineCut : Timeline Rat :=
  (titledCut.setTransition "a" .dissolve 1 .finish .start).1.after (.splitClip "a" 2 (some "d"))

theorem fineCut_reachable : fineCut.Reachable := by
  have h : (titledCut.setTransition "a" .dissolve 1 .finish .start).1.Reachable :=
    titledCut_reachable.issuing (.setTransition "a" .dissolve 1 .finish) trivial (by cbv)
      (congrArg Except.ok (Prod.ext rfl (by cbv)))
  exact h.after (.splitClip "a" 2 (some "d")) (by rintro _ ⟨⟩; exact not_mem_of_contains (by cbv))
    (by cbv)

theorem fineCut_in_place :
    fineCut.transitions.map (fun x => (x.clipId, x.side)) = [("d", .finish)] ∧
    fineCut.looks.map (·.clipId) = ["b"] ∧ fineCut.overlays.map (·.trackId) = ["x"] ∧
    fineCut.allClips.map (·.id) = ["a", "d", "b", "c"] ∧
    (fineCut.allClips.map (·.id)).Nodup ∧
    (∀ x ∈ fineCut.transitions, ∃ c ∈ fineCut.allClips, c.id = x.clipId) ∧
    (∀ l ∈ fineCut.looks, ∃ c ∈ fineCut.allClips, c.id = l.clipId) ∧
    ∀ o ∈ fineCut.overlays, ∃ track ∈ fineCut.tracks, track.id = o.trackId ∧ track.kind = .text :=
  have h := fineCut_reachable.records_in_place
  ⟨by cbv, by cbv, by cbv, by cbv, h.1, h.2.1, h.2.2.2.1, h.2.2.2.2.2⟩

end Timeline

end Montage
