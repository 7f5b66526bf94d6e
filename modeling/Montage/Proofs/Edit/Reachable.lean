/-
Timelines that edits lead to, from an empty one.

The ids that are given to new things have to be new, as those that are issued
are. Every edit keeps a timeline linked (`Timeline.Linked.run`), so every timeline
that is reached is, by any edits in any order.
-/
import Mathlib
import Montage.Proofs.Edit.Links

namespace Montage

variable {α : Type}

/-- The ids of the things of a timeline. -/
def Timeline.names (t : Timeline α) : List String :=
  t.tracks.map (·.id) ++ t.allClips.map (·.id) ++ t.overlays.map (·.id) ++ t.transitions.map (·.id)

/-- Whether the id that an edit gives to a new thing, if it does, is new on a timeline. -/
def Edit.GivesNew (t : Timeline α) : Edit α → Prop
  | .addTrack _ _ given => ∀ id ∈ given, id ∉ t.tracks.map (·.id)
  | .addClip _ _ _ given | .splitClip _ _ given | .detachAudio _ given =>
    ∀ id ∈ given, id ∉ t.allClips.map (·.id)
  | .addOverlay _ _ _ given _ => ∀ id, given = .text id → id ∉ t.overlays.map (·.id)
  | _ => True

variable [Scalar α]

/-- Texts can all be keys. -/
theorem Edit.apply_eq_run (e : Edit α) (t : Timeline α) (ids : Ids) : e.apply t ids = e.run t ids :=
  if_pos (List.all_eq_true.2 fun id _ => Label.isKey_text id)

namespace Timeline

/-- The timelines that edits lead to. -/
inductive Reachable : Timeline α → Prop where
  | empty (name : String) (ratio : AspectRatio) : Reachable (.empty name ratio)
  | step {t u : Timeline α} {ids rest : Ids} (e : Edit α) : Reachable t → e.GivesNew t →
      Ids.Fresh ids rest t.names → e.apply t ids = .ok (u, rest) → Reachable u

variable {t u : Timeline α} {track : Track α} {ids rest : Ids}

omit [Scalar α] in
theorem trackIds_subset_names (t : Timeline α) : t.tracks.map (·.id) ⊆ t.names :=
  fun _ h => by simp only [names, List.mem_append]; exact .inl (.inl (.inl h))

omit [Scalar α] in
theorem clipIds_subset_names (t : Timeline α) : t.allClips.map (·.id) ⊆ t.names :=
  fun _ h => by simp only [names, List.mem_append]; exact .inl (.inl (.inr h))

omit [Scalar α] in
theorem transitionIds_subset_names (t : Timeline α) : t.transitions.map (·.id) ⊆ t.names :=
  fun _ h => by simp only [names, List.mem_append]; exact .inr h

/-! ## Every edit keeps a timeline linked -/

omit [Scalar α] in
theorem Linked.empty (name : String) (ratio : AspectRatio) :
    Linked (.empty name ratio : Timeline α) :=
  ⟨by simp [Timeline.empty], Matched.nil⟩

/-- **Every edit keeps a timeline linked.** -/
theorem Linked.run (h : t.Linked) {e : Edit α} (hgiven : e.GivesNew t)
    (hfresh : Ids.Fresh ids rest t.names) (hr : e.run t ids = .ok (u, rest)) : u.Linked := by
  have htracks := hfresh.of_subset t.trackIds_subset_names
  have hclips := hfresh.of_subset t.clipIds_subset_names
  cases e with
  | setProjectName name =>
    cases hr
    exact h.of_tracks_eq rfl
  | setAspectRatio ratio =>
    have hr := Report.orRefuse_eq_ok.1 (eq_ok_of_map_pair hr)
    exact h.setAspectRatio hr
  | addTrack kind name given =>
    obtain ⟨track, hblank, he⟩ := t.addTrack_cases kind name given ids
    rw [Edit.run, he] at hr
    cases hr
    exact h.append hblank (htracks.choose hgiven) rfl
  | removeTrack trackId =>
    cases hr
    exact h.removeTrack trackId
  | toggleTrackMute trackId =>
    cases hr
    exact h.retuned (t.toggleTrackMute_cases trackId)
  | toggleTrackLock trackId =>
    cases hr
    exact h.retuned (t.toggleTrackLock_cases trackId)
  | setTrackGain trackId gain =>
    cases hr
    exact h.retuned (t.setTrackGain_cases trackId gain)
  | addClip trackId asset start given =>
    exact h.addClip hgiven hclips (Except.ok.inj hr)
  | removeClip clipId =>
    cases hr
    exact h.removeClip clipId
  | updateClip clipId changes =>
    have hr := eq_ok_of_map_pair hr
    exact h.exchanged (updateClip_cases hr)
  | trimClip clipId trimIn trimOut =>
    have hr := eq_ok_of_map_pair hr
    exact h.exchanged (updateClip_cases hr)
  | resizeClip clipId edge time =>
    have hr := eq_ok_of_map_pair hr
    exact h.exchanged (resizeClip_cases hr)
  | moveClip clipId trackId start =>
    cases hr
    exact h.moveClip clipId trackId start
  | splitClip clipId time given =>
    exact h.splitClip hgiven hclips (Except.ok.inj hr)
  | detachAudio videoId given =>
    exact h.detachAudio htracks hgiven hclips hr
  | linkAudio videoId audioId =>
    cases hr
    exact h.linkAudio videoId audioId
  | unlinkAudio clipId =>
    cases hr
    exact (h.unlinkAudio clipId).1
  | setClipAudioMuted clipId muted =>
    have hr := eq_ok_of_map_pair hr
    exact h.exchanged (updateClip_cases hr)
  | repairLinks =>
    cases hr
    rw [h.repairLinks_eq]
    exact h
  | addOverlay text trackId start overlayId style =>
    rcases addOverlay_cases hr with he | ⟨track, hblank, hlt, he⟩
    · exact h.of_tracks_eq he
    · exact h.append hblank (htracks.next hlt) he
  | updateOverlay overlayId changes =>
    have hr := eq_ok_of_map_pair hr
    exact h.of_tracks_eq (updateOverlay_tracks hr)
  | removeOverlay overlayId =>
    cases hr
    exact h.of_tracks_eq rfl
  | moveOverlay overlayId trackId =>
    cases hr
    exact h.of_tracks_eq (t.moveOverlay_tracks overlayId trackId)
  | setTransition clipId kind duration side =>
    have hu := congrArg (fun r => r.1.tracks) (Except.ok.inj hr)
    exact h.of_tracks_eq (hu.symm.trans (t.setTransition_tracks kind duration side ids))
  | removeTransition clipId side =>
    cases hr
    exact h.of_tracks_eq rfl
  | setLook clipId params =>
    have hr := eq_ok_of_map_pair hr
    exact h.of_tracks_eq (setLook_tracks hr)
  | resetLook clipId =>
    cases hr
    exact h.of_tracks_eq rfl

namespace Reachable

theorem linked (h : t.Reachable) : t.Linked := by
  induction h with
  | empty name ratio => exact .empty name ratio
  | step e _ hnew hfresh hr ih =>
    rw [Edit.apply_eq_run] at hr
    exact ih.run hnew hfresh hr

/-- No timeline that is reached is the last one: there are new names for every edit of it. -/
theorem exists_supply (h : t.Reachable) {e : Edit α} (hnew : e.GivesNew t) :
    ∃ ids : Ids, ∀ u rest, e.apply t ids = .ok (u, rest) → u.Reachable := by
  obtain ⟨ids, hfresh⟩ := Ids.exists_fresh t.names
  exact ⟨ids, fun _ rest hr => h.step e hnew (hfresh rest) hr⟩

/-- An edit that issues no name. -/
theorem edit (h : t.Reachable) (e : Edit α) {r : Timeline α × Ids} (hnew : e.GivesNew t)
    (hr : e.run t .start = .ok r) (hids : r.2 = .start) : r.1.Reachable := by
  have hfresh : Ids.Fresh .start r.2 t.names := fun _ hle hlt =>
    absurd (hids ▸ hlt) (not_lt.2 hle)
  exact h.step e hnew hfresh ((e.apply_eq_run t .start).trans hr)

end Reachable

/-! ## A timeline that is reached -/

/-- An asset of four seconds. -/
def take (kind : MediaKind) : Asset Rat where
  name := "take"
  kind := kind
  source := "take"
  duration := some 4
  width := none
  height := none
  hasAudio := true
  id := "m"
  created := .tick 0

/-- Two video clips, one of which is pushed along, and an audio clip linked to the first. -/
def roughCut : Timeline Rat :=
  let t := (empty "cut" .wide).addTrack .video none (some "v") .start |>.1
  let t := t.addTrack .audio none (some "s") .start |>.1
  let t := t.addClip "v" (take .video) 0 (some "a") .start |>.1
  let t := t.addClip "v" (take .video) 1 (some "b") .start |>.1
  let t := t.addClip "s" (take .audio) 0 (some "c") .start |>.1
  t.linkAudio "a" "c"

theorem roughCut_reachable : roughCut.Reachable := by
  have new {names : List String} {id : String} (h : names.contains id = false) :
      ∀ i ∈ some id, i ∉ names := by simpa using h
  have h : Reachable (empty "cut" .wide : Timeline Rat) := .empty "cut" .wide
  have h := h.edit (.addTrack .video none (some "v")) (new (by cbv)) rfl rfl
  have h := h.edit (.addTrack .audio none (some "s")) (new (by cbv)) rfl rfl
  have h := h.edit (.addClip "v" (take .video) 0 (some "a")) (new (by cbv)) rfl (by cbv)
  have h := h.edit (.addClip "v" (take .video) 1 (some "b")) (new (by cbv)) rfl (by cbv)
  have h := h.edit (.addClip "s" (take .audio) 0 (some "c")) (new (by cbv)) rfl (by cbv)
  exact h.edit (.linkAudio "a" "c") trivial rfl rfl

/-! ## Links -/

/-- **Links in pairs.** In a timeline that is reached a clip names its detached audio just
when that clip names it back, so that there is no link to repair. -/
theorem Reachable.links_in_pairs (h : t.Reachable) :
    (∀ v ∈ t.allClips, ∀ i, v.detachedAudio = some i ↔
      ∃ a ∈ t.allClips, a.id = i ∧ a.linkedVideo = some v.id) ∧
    (∀ a ∈ t.allClips, ∀ i, a.linkedVideo = some i ↔
      ∃ v ∈ t.allClips, v.id = i ∧ v.detachedAudio = some a.id) ∧
    (∀ c ∈ t.allClips, (c.detachedAudio.isSome → c.kind = .video) ∧
      (c.linkedVideo.isSome → c.kind = .audio)) ∧
    t.repairLinks = t := by
  have hl := h.linked
  have hm := hl.matched
  refine ⟨fun v hv i => ⟨Linked.exists_clip hm.forth hv, ?_⟩,
    fun a ha i => ⟨Linked.exists_clip hm.back ha, ?_⟩, fun c hc => ⟨fun hsome => ?_, fun hsome => ?_⟩,
    hl.repairLinks_eq⟩
  · rintro ⟨a, ha, rfl, hav⟩
    obtain ⟨w, hw, hwv, hwa⟩ := Linked.exists_clip hm.back ha hav
    rwa [List.inj_on_of_nodup_map hl.clipIds hw hv hwv] at hwa
  · rintro ⟨v, hv, rfl, hva⟩
    obtain ⟨b, hb, hba, hbv⟩ := Linked.exists_clip hm.forth hv hva
    rwa [List.inj_on_of_nodup_map hl.clipIds hb ha hba] at hbv
  · obtain ⟨i, hi⟩ := Option.isSome_iff_exists.1 hsome
    exact (hm.forth c.bond (mem_bonds hc) i hi).1
  · obtain ⟨i, hi⟩ := Option.isSome_iff_exists.1 hsome
    exact (hm.back c.bond (mem_bonds hc) i hi).1

theorem roughCut_in_pairs :
    roughCut.allClips.map (fun c => (c.id, c.detachedAudio, c.linkedVideo)) =
      [("a", some "c", none), ("b", none, none), ("c", none, some "a")] ∧
    (∀ v ∈ roughCut.allClips, ∀ i, v.detachedAudio = some i ↔
      ∃ a ∈ roughCut.allClips, a.id = i ∧ a.linkedVideo = some v.id) ∧
    roughCut.repairLinks = roughCut :=
  have h := roughCut_reachable.links_in_pairs
  ⟨by cbv, h.1, h.2.2.2⟩

end Timeline

end Montage
