/-
Overlays of one track never show together, in exact arithmetic.

In a timeline whose overlays are in their places (`Timeline.Overlaid`) any two of one track are
apart, however short they are, and none starts before zero. Edits of anything else leave overlays
where they are (`Edit.slots_of_run`). A new overlay is put where it meets none (`placed_apart`);
one that is changed or moved has its track pushed apart (`Overlaid.settle`).

Whatever the overlays of its track are, a new one is put at the first free place from its start on
(`placed_isLeast`, `addOverlay_first_free`).
-/
import Montage.Proofs.Edit.Aside
import Montage.Proofs.Edit.Attached
import Montage.Proofs.FirstFree
import Montage.Proofs.Spacing

namespace Montage

variable {α : Type}

theorem apart_of_clear {siblings : List (Overlay Rat)} {o p : Overlay Rat}
    (h : collides siblings o.start o.duration none = false) (hp : p ∈ siblings) : Apart o p := by
  have htol : (0 : Rat) < overlapTolerance := by norm_num [overlapTolerance_eq]
  have hmeets : ¬ (o.start < p.finish ∧ p.start < o.start + o.duration) := fun hm => by
    rw [collides_iff_met.2 ⟨p, mem_met.2 ⟨hp, hm⟩⟩] at h
    cases h
  rcases not_and_or.1 hmeets with hle | hle
  · refine (Apart.of_end_le ?_).symm
    have hle := not_lt.1 hle
    change p.start + p.duration - overlapTolerance ≤ o.start
    rw [Overlay.finish] at hle
    linarith
  · refine Apart.of_end_le ?_
    have hle := not_lt.1 hle
    change o.start + o.duration - overlapTolerance ≤ p.start
    linarith

/-! ## Overlays that are read -/

/-- A field reads the change that is the last of its name. -/
theorem Fields.get?_override_cons {fs changes : Fields α} {name : String} {value : Json α}
    (h : changes.has name = false) :
    (fs.override ((name, value) :: changes)).get? name = some value := by
  show ((fs.put name value).override changes).get? name = some value
  rw [get?_override_of_not_has h, get?_put, if_pos rfl]

theorem Read.eq_text_of_text {j : Json α} {s : String} (h : Read.text j = .valid s) :
    j = .text s := by
  cases j <;> cases h
  rfl

namespace Overlay

/-- An overlay's id, and where it is shown. -/
def slot (o : Overlay α) : String × String × α × α := (o.id, o.trackId, o.start, o.duration)

variable [Scalar α] {fs : Fields α} {o p : Overlay α}

theorem parts_of_read (h : Overlay.read fs = .valid o) :
    fs.require "id" Read.text = .valid o.id ∧
      fs.require "track_id" Read.text = .valid o.trackId ∧
      fs.withDefault "start_time" 0.0 Read.nonnegative = .valid o.start ∧
      fs.withDefault "duration" defaultDuration Read.positive = .valid o.duration := by
  unfold Overlay.read at h
  simp only [Report.seq_eq_valid, Report.functor_map_eq_valid] at h
  obtain ⟨_, _, ⟨_, _, ⟨_, _, ⟨_, _, ⟨_, _, ⟨_, _, ⟨_, _, ⟨_, _, ⟨_, _, ⟨_, _, ⟨_, _, ⟨_, _, ⟨_, hid, rfl⟩,
    htrack, rfl⟩, -, rfl⟩, -, rfl⟩, -, rfl⟩, -, rfl⟩, -, rfl⟩, -, rfl⟩, -, rfl⟩, -, rfl⟩, -, rfl⟩,
    hstart, rfl⟩, hduration, rfl⟩ := h
  exact ⟨hid, htrack, hstart, hduration⟩

theorem duration_pos_of_read {fs : Fields Rat} {x : Rat}
    (h : fs.withDefault "duration" defaultDuration Read.positive = .valid x) : 0 < x := by
  unfold Fields.withDefault at h
  split at h
  · exact (Read.positive_eq_valid.1 (Report.under_eq_valid.1 h)).2
  · cases h
    norm_num [defaultDuration]

/-- An overlay reads the slot back from its own fields. -/
theorem slot_of_read {o p : Overlay Rat} (h : Overlay.read o.fields = .valid p) :
    o.slot = p.slot := by
  obtain ⟨hid, htrack, hstart, hduration⟩ := parts_of_read h
  simp [fields, Fields.require, Fields.withDefault, Read.nonnegative_eq_valid,
    Read.positive_eq_valid] at hid htrack hstart hduration
  rw [slot, slot, hid, htrack, hstart.1, hduration.1]

/-- No edit of an overlay changes its id or its track. -/
theorem home_of_change {changes : Fields α}
    (hedit : ∀ change ∈ changes, editable.contains change.1 = true)
    (h : Overlay.read (Fields.override o.fields changes) = .valid p) :
    p.id = o.id ∧ p.trackId = o.trackId := by
  have hnot {name : String} (hname : editable.contains name = false) : changes.has name = false :=
    List.any_eq_false.2 fun change hc he => by
      have := hedit change hc
      rw [beq_iff_eq.1 he, hname] at this
      cases this
  obtain ⟨hid, htrack, -, -⟩ := parts_of_read h
  rw [Fields.require, Fields.get?_override_of_not_has (hnot (by decide))] at hid htrack
  simp [fields] at hid htrack
  exact ⟨hid.symm, htrack.symm⟩

/-- A change that names no time leaves an overlay where it is. -/
theorem slot_of_change {o p : Overlay Rat} {changes : Fields Rat}
    (hedit : ∀ change ∈ changes, editable.contains change.1 = true)
    (htime : changes.has "start_time" = false ∧ changes.has "duration" = false)
    (h : Overlay.read (Fields.override o.fields changes) = .valid p) : p.slot = o.slot := by
  obtain ⟨hid, htrack⟩ := home_of_change hedit h
  obtain ⟨-, -, hstart, hduration⟩ := parts_of_read h
  rw [Fields.withDefault, Fields.get?_override_of_not_has htime.1] at hstart
  rw [Fields.withDefault, Fields.get?_override_of_not_has htime.2] at hduration
  simp [fields, Read.nonnegative_eq_valid, Read.positive_eq_valid] at hstart hduration
  rw [slot, slot, hid, htrack, hstart.1, hduration.1]

end Overlay

namespace Timeline

/-! ## Edits of anything else -/

@[simp] theorem overlays_renewed (t : Timeline α) (b : Bool) :
    (t.renewed b).overlays = t.overlays := by
  cases b <;> rfl

theorem overlayIds_subset_names (t : Timeline α) : t.overlays.map (·.id) ⊆ t.names :=
  fun _ h => by simp only [names, List.mem_append]; exact .inl (.inr h)

end Timeline

/-- Whether an edit puts an overlay somewhere. -/
def Edit.placesOverlay : Edit α → Bool
  | .addOverlay .. | .updateOverlay .. | .moveOverlay .. => true
  | _ => false

namespace Timeline

variable {t u : Timeline Rat} {ids rest : Ids}

theorem slots_setAspectRatio {ratio : Json Rat} (h : t.setAspectRatio ratio = .valid u) :
    u.overlays.map Overlay.slot = t.overlays.map Overlay.slot := by
  unfold setAspectRatio at h
  rw [Report.map_eq_valid] at h
  obtain ⟨v, hv, rfl⟩ := h
  exact (map_eq_of_forall₂ ((read_records hv).1.imp fun _ _ => Overlay.slot_of_read)).symm

/-- Any other edit leaves overlays where they are, or takes some away. -/
theorem slots_of_run {e : Edit Rat} (he : e.placesOverlay = false)
    (hr : e.run t ids = .ok (u, rest)) :
    (u.overlays.map Overlay.slot).Sublist (t.overlays.map Overlay.slot) := by
  have same (h : u.overlays = t.overlays) :
      (u.overlays.map Overlay.slot).Sublist (t.overlays.map Overlay.slot) := by rw [h]
  cases e with
  | setAspectRatio ratio =>
    rw [slots_setAspectRatio (Report.orRefuse_eq_ok.1 (eq_ok_of_map_pair hr))]
  | removeTrack trackId =>
    cases hr
    unfold removeTrack
    split
    · exact .refl _
    · rw [aside_overlays.dropRecords]
      exact List.filter_sublist.map _
  | removeOverlay overlayId =>
    cases hr
    exact List.filter_sublist.map _
  | setProjectName | addTrack | repairLinks | removeTransition | resetLook =>
    cases hr
    exact .refl _
  | toggleTrackMute trackId =>
    cases hr
    exact same (aside_overlays.retuned (t.toggleTrackMute_cases trackId))
  | toggleTrackLock trackId =>
    cases hr
    exact same (aside_overlays.retuned (t.toggleTrackLock_cases trackId))
  | setTrackGain trackId gain =>
    cases hr
    exact same (aside_overlays.retuned (t.setTrackGain_cases trackId gain))
  | updateClip | trimClip | setClipAudioMuted =>
    exact same (aside_overlays.exchanged overlays_renewed (updateClip_cases (eq_ok_of_map_pair hr)))
  | resizeClip =>
    exact same (aside_overlays.exchanged overlays_renewed (resizeClip_cases (eq_ok_of_map_pair hr)))
  | addClip => exact same (aside_overlays.addClip (Except.ok.inj hr))
  | removeClip clipId =>
    cases hr
    exact same (aside_overlays.removeClip t clipId)
  | moveClip clipId trackId start =>
    cases hr
    exact same (aside_overlays.moveClip t clipId trackId start)
  | splitClip => exact same (aside_overlays.splitClip (Except.ok.inj hr))
  | detachAudio => exact same (aside_overlays.detachAudio hr)
  | linkAudio videoId audioId =>
    cases hr
    exact same (aside_overlays.linkAudio t videoId audioId)
  | unlinkAudio clipId =>
    cases hr
    exact same (aside_overlays.unlinkAudio t clipId)
  | setTransition clipId kind duration side =>
    have hu := congrArg (fun r => r.1.overlays) (Except.ok.inj hr)
    exact same (hu.symm.trans (aside_overlays.setTransition t kind duration side ids))
  | setLook => exact same (aside_overlays.setLook (eq_ok_of_map_pair hr))
  | addOverlay | updateOverlay | moveOverlay => cases he

/-! ## Overlays in their places -/

/-- Overlays told apart by their ids, none of which starts before zero, and any two of which on one
track are apart. -/
structure Overlaid (t : Timeline Rat) : Prop where
  ids : (t.overlays.map (·.id)).Nodup
  start : ∀ o ∈ t.overlays, 0 ≤ o.start
  duration : ∀ o ∈ t.overlays, 0 < o.duration
  apart : ∀ o ∈ t.overlays, ∀ p ∈ t.overlays, o.id ≠ p.id → o.trackId = p.trackId → Apart o p

/-- Where an overlay comes to be when a track is pushed apart. -/
def settledIn (t : Timeline Rat) (trackId : String) (o : Overlay Rat) : Overlay Rat :=
  ((resolve (t.overlaysOn trackId)).reverse.find? (·.id == o.id)).getD o

/-- An overlay of a track that is pushed apart is one of those that are apart; any other stays. -/
theorem settledIn_cases (trackId : String) (hn : (t.overlays.map (·.id)).Nodup) {o : Overlay Rat}
    (ho : o ∈ t.overlays) :
    (o.trackId ≠ trackId ∧ t.settledIn trackId o = o) ∨
      (o.trackId = trackId ∧ t.settledIn trackId o ∈ resolve (t.overlaysOn trackId) ∧
        ∃ s, t.settledIn trackId o = { o with start := s }) := by
  have hsub : (t.overlaysOn trackId).Sublist t.overlays := List.filter_sublist
  have hids : ((resolve (t.overlaysOn trackId)).map Overlay.id).Perm
      ((t.overlaysOn trackId).map Overlay.id) :=
    resolve_map_perm (fun _ _ => rfl) _
  by_cases htrack : o.trackId = trackId
  · have hon : o ∈ t.overlaysOn trackId := List.mem_filter.2 ⟨ho, by simpa using htrack⟩
    obtain ⟨x, hx, hxid⟩ := List.mem_map.1 (hids.mem_iff.2 (List.mem_map_of_mem hon))
    have hnodup : ((resolve (t.overlaysOn trackId)).reverse.map Overlay.id).Nodup := by
      rw [List.map_reverse, List.nodup_reverse]
      exact hids.nodup_iff.2 ((hsub.map _).nodup hn)
    have hfind : t.settledIn trackId o = x := by
      rw [settledIn, find?_key_eq_some hnodup (List.mem_reverse.2 hx) hxid, Option.getD_some]
    obtain ⟨b, hb, s, -, rfl⟩ := exists_of_mem_resolve hx
    obtain rfl : b = o := List.inj_on_of_nodup_map hn (hsub.subset hb) ho hxid
    exact .inr ⟨htrack, hfind ▸ hx, s, hfind⟩
  · refine .inl ⟨htrack, ?_⟩
    have hnone : (resolve (t.overlaysOn trackId)).reverse.find? (·.id == o.id) = none := by
      refine List.find?_eq_none.2 fun x hx hid => htrack ?_
      obtain ⟨b, hb, s, -, rfl⟩ := exists_of_mem_resolve (List.mem_reverse.1 hx)
      obtain ⟨hb, hon⟩ := List.mem_filter.1 hb
      obtain rfl : b = o := List.inj_on_of_nodup_map hn hb ho (beq_iff_eq.1 hid)
      simpa using hon
    rw [settledIn, hnone, Option.getD_none]

/-- A new overlay at the first free place of its track. -/
def placed (t : Timeline Rat) (o : Overlay Rat) : Overlay Rat :=
  let siblings := sortByStart (t.overlaysOn o.trackId)
  { o with start := placeAfter siblings o.duration (siblings.length + 1) o.start }

/-- The placement of an overlay is the search from its start on. -/
theorem search_placed (t : Timeline Rat) (o : Overlay Rat) :
    ∃ k ≤ (t.overlaysOn o.trackId).length,
      Search (sortByStart (t.overlaysOn o.trackId)) o.duration k o.start (t.placed o).start := by
  have hlength := (sortByStart_perm (t.overlaysOn o.trackId)).length_eq
  obtain ⟨k, hk, hsearch⟩ :=
    search_placeAfter (sortByStart (t.overlaysOn o.trackId)) o.duration o.start
  exact ⟨k, hlength ▸ hk, hsearch⟩

theorem placed_isLeast (t : Timeline Rat) {o : Overlay Rat}
    (hshown : ∀ p ∈ t.overlaysOn o.trackId, 0 < p.duration) (hpos : 0 < o.duration) :
    IsLeast {s | o.start ≤ s ∧ FreeAt (t.overlaysOn o.trackId) s o.duration} (t.placed o).start := by
  obtain ⟨_, -, hsearch⟩ := t.search_placed o
  have hsort := sortByStart_perm (t.overlaysOn o.trackId)
  have hfree (s : Rat) : collides (sortByStart (t.overlaysOn o.trackId)) s o.duration none = false ↔
      FreeAt (t.overlaysOn o.trackId) s o.duration := by
    have hsorted : ∀ p ∈ others (sortByStart (t.overlaysOn o.trackId)) (none : Option String),
        0 < p.duration := fun p hp => hshown p (hsort.mem_iff.1 (List.mem_of_mem_filter hp))
    rw [collides_eq_false_iff_freeAt hsorted hpos, others_none]
    exact forall_congr' fun p => by rw [hsort.mem_iff]
  simpa only [hfree] using hsearch.isLeast

theorem placed_apart (t : Timeline Rat) (o : Overlay Rat) :
    o.start ≤ (t.placed o).start ∧
      ∀ p ∈ t.overlays, p.trackId = (t.placed o).trackId → Apart (t.placed o) p := by
  obtain ⟨_, -, hsearch⟩ := t.search_placed o
  obtain ⟨hle, hclear⟩ := hsearch.isLeast.1
  refine ⟨hle, fun p hp htrack => apart_of_clear hclear ?_⟩
  have hon : p ∈ t.overlaysOn o.trackId := List.mem_filter.2 ⟨hp, beq_iff_eq.2 htrack⟩
  exact (sortByStart_perm _).mem_iff.2 hon

namespace Overlaid

theorem empty (name : String) (ratio : AspectRatio) :
    Overlaid (.empty name ratio : Timeline Rat) := by
  constructor <;> simp [Timeline.empty]

theorem of_sublist (h : t.Overlaid)
    (hs : (u.overlays.map Overlay.slot).Sublist (t.overlays.map Overlay.slot)) : u.Overlaid := by
  have hmem : ∀ o ∈ u.overlays, ∃ p ∈ t.overlays, p.slot = o.slot := fun o ho =>
    List.mem_map.1 (hs.subset (List.mem_map_of_mem ho))
  have hids := hs.map Prod.fst
  rw [List.map_map, List.map_map] at hids
  refine ⟨hids.nodup h.ids, fun o ho => ?_, fun o ho => ?_, fun o ho p hp hne htrack => ?_⟩
  · obtain ⟨q, hq, he⟩ := hmem o ho
    simp only [Overlay.slot, Prod.mk.injEq] at he
    exact he.2.2.1 ▸ h.start q hq
  · obtain ⟨q, hq, he⟩ := hmem o ho
    simp only [Overlay.slot, Prod.mk.injEq] at he
    exact he.2.2.2 ▸ h.duration q hq
  · obtain ⟨q, hq, he⟩ := hmem o ho
    obtain ⟨r, hr, he'⟩ := hmem p hp
    simp only [Overlay.slot, Prod.mk.injEq] at he he'
    obtain ⟨hid, hq', hs, hd⟩ := he
    obtain ⟨hid', hr', hs', hd'⟩ := he'
    have hapart : Apart q r := h.apart q hq r hr (by rwa [hid, hid']) (by rw [hq', hr', htrack])
    change min (q.start + q.duration) (r.start + r.duration) - max q.start r.start ≤ _ at hapart
    rwa [hs, hd, hs', hd'] at hapart

/-- A track is pushed apart, where overlays of the others are apart already. -/
theorem settle {trackId : String} (hn : (t.overlays.map (·.id)).Nodup)
    (hs : ∀ o ∈ t.overlays, 0 ≤ o.start) (hd : ∀ o ∈ t.overlays, 0 < o.duration)
    (ha : ∀ o ∈ t.overlays, ∀ p ∈ t.overlays, o.id ≠ p.id → o.trackId = p.trackId →
      o.trackId ≠ trackId → Apart o p) : (t.settleOverlays trackId).Overlaid := by
  have he : (t.settleOverlays trackId).overlays = t.overlays.map (t.settledIn trackId) := rfl
  have hid : ∀ o ∈ t.overlays, (t.settledIn trackId o).id = o.id := fun o ho => by
    rcases settledIn_cases trackId hn ho with ⟨-, he⟩ | ⟨-, -, s, he⟩ <;> rw [he]
  have hon : ∀ o ∈ t.overlaysOn trackId, o ∈ t.overlays := fun o ho => List.mem_of_mem_filter ho
  refine ⟨?_, fun x hx => ?_, fun x hx => ?_, fun x hx y hy hne htrack => ?_⟩
  · have hids : (t.settleOverlays trackId).overlays.map (·.id) = t.overlays.map (·.id) := by
      rw [he, List.map_map]
      exact List.map_congr_left hid
    rwa [hids]
  · rw [he] at hx
    obtain ⟨o, ho, rfl⟩ := List.mem_map.1 hx
    rcases settledIn_cases trackId hn ho with ⟨-, he⟩ | ⟨-, hmem, -⟩
    · rw [he]
      exact hs o ho
    · exact start_nonneg_of_mem_resolve (fun b hb => hs b (hon b hb))
        (fun b hb => (hd b (hon b hb)).le) hmem
  · rw [he] at hx
    obtain ⟨o, ho, rfl⟩ := List.mem_map.1 hx
    rcases settledIn_cases trackId hn ho with ⟨-, he⟩ | ⟨-, -, s, he⟩ <;> rw [he]
    · exact hd o ho
    · exact hd o ho
  · rw [he] at hx hy
    obtain ⟨o, ho, rfl⟩ := List.mem_map.1 hx
    obtain ⟨p, hp, rfl⟩ := List.mem_map.1 hy
    rcases settledIn_cases trackId hn ho with ⟨hot, hox⟩ | ⟨hot, hox, s, hos⟩ <;>
      rcases settledIn_cases trackId hn hp with ⟨hpt, hpy⟩ | ⟨hpt, hpy, r, hpr⟩
    · rw [hox, hpy] at hne htrack ⊢
      exact ha o ho p hp hne htrack hot
    · rw [hox, hpr] at htrack
      exact absurd (htrack.trans hpt) hot
    · rw [hos, hpy] at htrack
      exact absurd (htrack.symm.trans hot) hpt
    · have hapart := resolve_apart fun b hb => (hd b (hon b hb)).le
      exact hapart.forall hox hpy (fun he => hne (congrArg Overlay.id he))

/-- An overlay more, which is apart from those of its track. -/
theorem append (h : t.Overlaid) {o : Overlay Rat} (hid : o.id ∉ t.overlays.map (·.id))
    (hs : 0 ≤ o.start) (hd : 0 < o.duration)
    (ha : ∀ p ∈ t.overlays, p.trackId = o.trackId → Apart o p) :
    Overlaid { t with overlays := t.overlays ++ [o] } := by
  refine ⟨?_, fun p hp => ?_, fun p hp => ?_, fun p hp q hq hne htrack => ?_⟩
  · rw [List.map_append, List.map_singleton, ← List.concat_eq_append]
    exact h.ids.concat hid
  · rcases List.mem_append.1 hp with hp | hp
    · exact h.start p hp
    · rwa [List.mem_singleton.1 hp]
  · rcases List.mem_append.1 hp with hp | hp
    · exact h.duration p hp
    · rwa [List.mem_singleton.1 hp]
  · rcases List.mem_append.1 hp with hp' | hp' <;> rcases List.mem_append.1 hq with hq' | hq'
    · exact h.apart p hp' q hq' hne htrack
    · obtain rfl := List.mem_singleton.1 hq'
      exact (ha p hp' htrack).symm
    · obtain rfl := List.mem_singleton.1 hp'
      exact ha q hq' htrack.symm
    · exact absurd (by rw [List.mem_singleton.1 hp', List.mem_singleton.1 hq']) hne

/-- A new overlay is put where it meets none of its track. -/
theorem addOverlay (h : t.Overlaid) {text start overlayId : Json Rat} {style : Fields Rat}
    {given : Option String} (hgiven : ∀ id, overlayId = .text id → id ∉ t.overlays.map (·.id))
    (hfresh : Ids.Fresh ids rest (t.overlays.map (·.id)))
    (hu : t.addOverlay text given start overlayId style ids = .ok (u, rest)) : u.Overlaid := by
  rcases addOverlay_eq_ok.1 hu with
    ⟨-, rfl, -⟩ | ⟨t₁, ids₁, trackId, place, o, htrack, -, -, ho, rfl, rfl⟩
  · exact h
  have hsame : t₁.overlays = t.overlays ∧ ids.issued ≤ ids₁.issued := by
    rcases overlayTrack_cases htrack with ⟨rfl, rfl⟩ | ⟨track, -, rfl, rfl⟩
    · exact ⟨rfl, le_rfl⟩
    · exact ⟨rfl, Nat.le_succ _⟩
  have h₁ : t₁.Overlaid := h.of_sublist (by rw [hsame.1])
  obtain ⟨hid, -, hs, hd⟩ := Overlay.parts_of_read ho
  obtain rfl : o.trackId = trackId :=
    Overlay.trackId_of_read ho (Fields.get?_override_of_all (by simp) (by simp))
  have hnew : o.id ∉ t₁.overlays.map (·.id) := by
    obtain ⟨j, hj, hread⟩ := Fields.require_eq_valid.1 hid
    rw [overlayFields, Fields.get?_override_cons (by simp), Option.some.injEq] at hj
    rw [hsame.1]
    split at hj
    · next hvoid =>
      rw [if_pos hvoid] at hfresh
      rw [← Json.text.inj (hj.trans (Read.eq_text_of_text hread))]
      exact (hfresh.of_le_left hsame.2).next (Nat.lt_succ_self _)
    · exact hgiven _ (hj.trans (Read.eq_text_of_text hread))
  have hplaced := t₁.placed_apart o
  exact h₁.append hnew ((nonneg_of_read hs).trans hplaced.1) (Overlay.duration_pos_of_read hd)
    hplaced.2

/-- Some overlays are changed, and the track that they are on then is pushed apart. -/
theorem settle_map (h : t.Overlaid) {f : Overlay Rat → Overlay Rat} {trackId : String}
    (hid : ∀ o ∈ t.overlays, (f o).id = o.id) (hs : ∀ o ∈ t.overlays, 0 ≤ (f o).start)
    (hd : ∀ o ∈ t.overlays, 0 < (f o).duration)
    (hf : ∀ o ∈ t.overlays, (f o).trackId ≠ trackId → f o = o) :
    (settleOverlays { t with overlays := t.overlays.map f } trackId).Overlaid := by
  refine settle ?_ (List.forall_mem_map.2 hs) (List.forall_mem_map.2 hd) fun x hx y hy hne htrack hoff => ?_
  · have hids : (t.overlays.map f).map (·.id) = t.overlays.map (·.id) := by
      rw [List.map_map]
      exact List.map_congr_left hid
    rw [hids]
    exact h.ids
  · obtain ⟨o, ho, rfl⟩ := List.mem_map.1 hx
    obtain ⟨p, hp, rfl⟩ := List.mem_map.1 hy
    have hoff' : (f p).trackId ≠ trackId := htrack ▸ hoff
    rw [hf o ho hoff, hf p hp hoff'] at hne htrack ⊢
    exact h.apart o ho p hp hne htrack

/-- A changed overlay has its track pushed apart if the change names its time. -/
theorem updateOverlay (h : t.Overlaid) {overlayId : String} {changes : Fields Rat}
    (hu : t.updateOverlay overlayId changes = .ok u) : u.Overlaid := by
  unfold Timeline.updateOverlay at hu
  split at hu
  · cases hu
    exact h
  next old hold =>
  dsimp only at hu
  split at hu
  · cases hu
  next hknown =>
  rw [bind_eq_ok] at hu
  obtain ⟨new, hnew, hu⟩ := hu
  have hmem := List.mem_of_find?_eq_some hold
  obtain rfl : old.id = overlayId := by simpa using List.find?_some hold
  have hread := Report.orRefuse_eq_ok.1 hnew
  obtain ⟨hid, htrack⟩ := Overlay.home_of_change (by simpa using hknown) hread
  obtain ⟨-, -, hs, hd⟩ := Overlay.parts_of_read hread
  have hsame : ∀ o ∈ t.overlays, (o.id == old.id) = true → o = old := fun o ho he =>
    List.inj_on_of_nodup_map h.ids ho hmem (beq_iff_eq.1 he)
  split at hu
  · cases hu
    refine h.settle_map (fun o ho => ?_) (fun o ho => ?_) (fun o ho => ?_) fun o ho hoff => ?_
    · split
      · next he => rw [hid, beq_iff_eq.1 he]
      · rfl
    · split
      · exact nonneg_of_read hs
      · exact h.start o ho
    · split
      · exact Overlay.duration_pos_of_read hd
      · exact h.duration o ho
    · split at hoff
      · exact absurd htrack hoff
      · next he => rw [if_neg he]
  · next htime =>
    cases hu
    have hslot := Overlay.slot_of_change (by simpa using hknown) (by simpa using htime) hread
    have hslots : (t.overlays.map fun o => if o.id == old.id then new else o).map Overlay.slot =
        t.overlays.map Overlay.slot := by
      rw [List.map_map]
      refine List.map_congr_left fun o ho => ?_
      rw [Function.comp_apply]
      split
      · next he => rw [hslot, hsame o ho he]
      · rfl
    refine h.of_sublist ?_
    rw [hslots]

theorem moveOverlay (h : t.Overlaid) (overlayId trackId : String) :
    (t.moveOverlay overlayId trackId).Overlaid := by
  unfold Timeline.moveOverlay
  split
  · next overlay target _ htarget =>
    split
    · exact h
    · refine h.settle_map (fun o _ => ?_) (fun o ho => ?_) (fun o ho => ?_) fun o _ hoff => ?_
      · split <;> rfl
      · split <;> exact h.start o ho
      · split <;> exact h.duration o ho
      · split at hoff
        · exact absurd rfl hoff
        · next he => rw [if_neg he]
  · exact h

/-- **Every edit leaves overlays in their places.** -/
theorem run (h : t.Overlaid) {e : Edit Rat} (hgiven : e.GivesNew t)
    (hfresh : Ids.Fresh ids rest t.names) (hr : e.run t ids = .ok (u, rest)) : u.Overlaid := by
  cases he : e.placesOverlay with
  | false => exact h.of_sublist (slots_of_run he hr)
  | true =>
    cases e with
    | addOverlay => exact h.addOverlay hgiven (hfresh.of_subset t.overlayIds_subset_names) hr
    | updateOverlay => exact h.updateOverlay (eq_ok_of_map_pair hr)
    | moveOverlay overlayId trackId =>
      cases hr
      exact h.moveOverlay overlayId trackId
    | _ => cases he

end Overlaid

namespace Reachable

theorem overlaid (h : t.Reachable) : t.Overlaid := by
  induction h with
  | empty name ratio => exact .empty name ratio
  | step e _ hnew hfresh hr ih =>
    rw [Edit.apply_eq_run] at hr
    exact ih.run hnew hfresh hr

/-- **Overlays of one track never show together.** In a timeline that is reached any two overlays
of one track are both shown for no longer than the tolerance, however short they are, and each
starts at zero or later. -/
theorem overlays_apart (h : t.Reachable) :
    (t.overlays.Pairwise fun o p => o.trackId = p.trackId →
      min o.finish p.finish - max o.start p.start ≤ overlapTolerance) ∧
    ∀ o ∈ t.overlays, 0 ≤ o.start :=
  have hplaces := h.overlaid
  ⟨(List.pairwise_map.1 hplaces.ids).imp_of_mem fun ho hp => hplaces.apart _ ho _ hp, hplaces.start⟩

end Reachable

/-- The titled cut with a text that is over in a moment, dragged into the end of the other one. -/
def blinkCut : Timeline Rat :=
  let t := titledCut.after (.addOverlay (.text "!") (some "x") (.real 3) (.text "p")
    [("duration", .real (1 / 5000))])
  t.after (.updateOverlay "p" [("start_time", .real (15999 / 2000))])

theorem blinkCut_reachable : blinkCut.Reachable := by
  have h := titledCut_reachable.after (.addOverlay (.text "!") (some "x") (.real 3) (.text "p")
    [("duration", .real (1 / 5000))]) (by rintro _ ⟨⟩; exact not_mem_of_contains (by cbv)) (by cbv)
  exact h.after (.updateOverlay "p" [("start_time", .real (15999 / 2000))]) trivial (by cbv)

theorem blinkCut_apart :
    blinkCut.overlays.map (fun o => (o.trackId, o.start, o.finish)) =
      [("x", 3, 8), ("x", 15999 / 2000, 79997 / 10000)] ∧
    (blinkCut.overlays.Pairwise fun o p => o.trackId = p.trackId →
      min o.finish p.finish - max o.start p.start ≤ overlapTolerance) ∧
    ∀ o ∈ blinkCut.overlays, 0 ≤ o.start :=
  ⟨by cbv, blinkCut_reachable.overlays_apart⟩

/-! ## The place of a new overlay -/

section FirstFree

variable {t₁ : Timeline Rat} {ids₁ : Ids} {given : Option String} {trackId : String}
  {text overlayId wanted start : Json Rat} {style : Fields Rat} {o : Overlay Rat}

/-- **A new overlay is put at the first free place** of its track from the wanted start on, or from
zero on. The search for it is over after no more rounds than there are overlays on the track, each of
which goes to the latest end of those that it meets there, and all that are there stay. -/
theorem addOverlay_first_free (htrack : t.overlayTrack given ids = some (t₁, ids₁, trackId))
    (hshown : ∀ p ∈ t.overlaysOn trackId, 0 < p.duration)
    (hwanted : ClipChange.floor wanted = .ok start) (hstyle : style.has "id" = false)
    (ho : Overlay.read (overlayFields style overlayId text start trackId ids₁) = .valid o) :
    t₁.HasText trackId ∧ o.trackId = trackId ∧
    ∃ x place, ∃ k ≤ (t.overlaysOn trackId).length, ClipChange.operand wanted = .ok x ∧
      Search (sortByStart (t.overlaysOn trackId)) o.duration k (max 0 x) place ∧
      IsLeast {s | max 0 x ≤ s ∧ FreeAt (t.overlaysOn trackId) s o.duration} place ∧
      t.addOverlay text given wanted overlayId style ids =
        .ok ({ t₁ with overlays := t.overlays ++ [{ o with start := place }] },
          if overlayId.isVoid then ids₁.rest else ids₁) := by
  obtain ⟨-, -, hstart, hduration⟩ := Overlay.parts_of_read ho
  have hpos := Overlay.duration_pos_of_read hduration
  obtain rfl : o.trackId = trackId :=
    Overlay.trackId_of_read ho (Fields.get?_override_of_all (by simp) (by simp))
  obtain ⟨x, hx, -, hread⟩ := ClipChange.floor_eq_ok hwanted
  have hget : (overlayFields style overlayId text start o.trackId ids₁).get? "start_time" =
      some start := Fields.get?_override_of_all (by simp) (by simp)
  have hfrom : max 0 x = o.start := by
    rw [Fields.withDefault_of_get? hget, Read.nonnegative_eq_valid, hread, Report.valid.injEq] at hstart
    exact hstart.1
  have hsame : t₁.overlays = t.overlays := by
    rcases overlayTrack_cases htrack with ⟨rfl, -⟩ | ⟨_, -, -, rfl⟩ <;> rfl
  obtain ⟨k, hk, hsearch⟩ := t.search_placed o
  refine ⟨(overlayTrack_eq_some htrack).2, rfl, x, (t.placed o).start, k, hk, hx, ?_, ?_, ?_⟩
  · exact hfrom ▸ hsearch
  · exact hfrom ▸ t.placed_isLeast hshown hpos
  · refine addOverlay_eq_ok.2 (.inr ⟨t₁, ids₁, o.trackId, start, o, htrack, hwanted, hstyle, ho, ?_, rfl⟩)
    rw [overlaysOn, hsame]
    rfl

end FirstFree

/-- Captions in no order that overlap one another, and one of another track. -/
def crowded : Timeline Rat :=
  let t := ((Timeline.empty "film" .wide).addTrack .text none (some "text") .start).1
  { t with overlays :=
      [caption "c" 3 2, caption "a" 0 2, { caption "d" 4 6 with trackId := "x" }, caption "b" 1 3] }

/-- A caption of a second that is asked for before zero goes past three others, one after another. -/
theorem crowded_first_free :
    crowded.overlayTrack (some "text") .start = some (crowded, .start, "text") ∧
    (∀ p ∈ crowded.overlaysOn "text", 0 < p.duration) ∧
    ClipChange.floor (.real (-1) : Json Rat) = .ok (.real 0) ∧
    Fields.has ([("duration", .real 1)] : Fields Rat) "id" = false ∧
    Overlay.read (overlayFields [("duration", .real 1)] (.text "e") (.text "e") (.real 0) "text"
      .start) = .valid (caption "e" 0 1) ∧
    (∃ k ≤ 3, Search (sortByStart (crowded.overlaysOn "text")) 1 k 0 5) ∧
    IsLeast {s | 0 ≤ s ∧ FreeAt (crowded.overlaysOn "text") s 1} 5 ∧
    crowded.addOverlay (.text "e") (some "text") (.real (-1)) (.text "e") [("duration", .real 1)]
      .start = .ok ({ crowded with overlays := crowded.overlays ++ [caption "e" 5 1] }, .start) := by
  have htrack : crowded.overlayTrack (some "text") .start = some (crowded, .start, "text") := by cbv
  have hshown : ∀ p ∈ crowded.overlaysOn "text", 0 < p.duration := by decide +kernel
  have hwanted : ClipChange.floor (.real (-1) : Json Rat) = .ok (.real 0) := by cbv
  have hstyle : Fields.has ([("duration", .real 1)] : Fields Rat) "id" = false := by decide
  have ho : Overlay.read (overlayFields [("duration", .real 1)] (.text "e") (.text "e") (.real 0)
      "text" .start) = .valid (caption "e" 0 1) := by cbv
  obtain ⟨-, -, x, place, k, hk, hx, hsearch, hleast, hadd⟩ :=
    addOverlay_first_free htrack hshown hwanted hstyle ho
  have hplace : crowded.addOverlay (.text "e") (some "text") (.real (-1)) (.text "e")
      [("duration", .real 1)] .start =
        .ok ({ crowded with overlays := crowded.overlays ++ [caption "e" 5 1] }, .start) := by cbv
  obtain rfl : -1 = x := Except.ok.inj hx
  obtain rfl : place = 5 := by
    have hsame := congrArg (fun u => u.1.overlays.map Overlay.start)
      (Except.ok.inj (hadd.symm.trans hplace))
    simpa [caption] using hsame
  exact ⟨htrack, hshown, hwanted, hstyle, ho, ⟨k, hk, hsearch⟩, hleast, hplace⟩

end Timeline

end Montage
