/-
What the edits of a timeline come down to, in any arithmetic.

An edit leaves the timeline alone, or does one of a few things to it. Changing,
trimming, muting and resizing a clip exchange it for one in its place
(`Timeline.Exchanged`); adding, moving, cutting and detaching put clips on a
track; what concerns tracks, overlays, transitions and looks leaves the clips
alone. The lemmas here say which, once for each edit.
-/
import Mathlib.Algebra.Order.BigOperators.Group.List
import Montage.Proofs.Edit.Change
import Montage.Proofs.Edit.Parts

namespace Montage

variable {α : Type} [Scalar α]

/-! ## Names -/

theorem Ids.next_ne_empty (ids : Ids) : ids.next ≠ "" := by
  intro h
  have := congrArg String.length h
  simp [Ids.next] at this

theorem Ids.choose_ne_empty (ids : Ids) (given : Option String) : (ids.choose given).1 ≠ "" := by
  unfold choose
  split
  · split
    · exact ids.next_ne_empty
    · next h => simpa using h
  · exact ids.next_ne_empty

theorem Ids.le_choose (ids : Ids) (given : Option String) : ids.issued ≤ (ids.choose given).2.issued := by
  unfold choose rest
  split
  · split <;> simp
  · simp

/-- None of the names issued between two supplies is among some names. -/
def Ids.Fresh (ids rest : Ids) (names : List String) : Prop :=
  ∀ n, ids.issued ≤ n → n < rest.issued → (⟨n⟩ : Ids).next ∉ names

namespace Ids.Fresh

variable {ids other rest : Ids} {names : List String}

theorem next (h : Fresh ids rest names) (hlt : ids.issued < rest.issued) : ids.next ∉ names :=
  h ids.issued le_rfl hlt

theorem of_le_left (h : Fresh ids rest names) (hle : ids.issued ≤ other.issued) :
    Fresh other rest names :=
  fun n hn hlt => h n (hle.trans hn) hlt

theorem of_le_right (h : Fresh ids rest names) (hle : other.issued ≤ rest.issued) :
    Fresh ids other names :=
  fun n hn hlt => h n hn (hlt.trans_le hle)

theorem of_subset (h : Fresh ids rest names) {fewer : List String} (hsub : fewer ⊆ names) :
    Fresh ids rest fewer :=
  fun n hn hlt hmem => h n hn hlt (hsub hmem)

/-- A chosen name is new if the given one is. -/
theorem choose {given : Option String} (h : Fresh ids (ids.choose given).2 names)
    (hgiven : ∀ id ∈ given, id ∉ names) : (ids.choose given).1 ∉ names := by
  cases given with
  | none => exact h.next (Nat.lt_succ_self _)
  | some id =>
    simp only [Ids.choose] at h ⊢
    split
    · next hempty =>
      rw [if_pos hempty] at h
      exact h.next (Nat.lt_succ_self _)
    · exact hgiven id rfl

end Ids.Fresh

/-- Some supply issues none of some names: it has come to longer ones. -/
theorem Ids.exists_fresh (names : List String) : ∃ ids : Ids, ∀ rest, Ids.Fresh ids rest names := by
  let k := (names.map String.length).sum + 1
  refine ⟨⟨10 ^ k⟩, fun rest n hn _ hmem => ?_⟩
  have hle : (⟨n⟩ : Ids).next.length ≤ (names.map String.length).sum :=
    List.le_sum_of_mem (List.mem_map_of_mem hmem)
  have hshort : (n + 1).repr.length ≤ k := by
    simp only [Ids.next, String.length_append] at hle
    exact (Nat.le_add_left ..).trans (hle.trans (Nat.le_succ _))
  have hlt := (Nat.length_repr_le_iff (Nat.succ_pos _)).1 hshort
  exact absurd (Nat.lt_of_succ_lt hlt) (not_lt.2 hn)

theorem chooseLabel_eq (ids : Ids) (given : Option String) :
    chooseLabel α ids given = ids.choose given := by
  cases given with
  | none => rfl
  | some id =>
    have hvoid : Label.isVoid α id = id.isEmpty := rfl
    cases he : id.isEmpty <;>
      simp [chooseLabel, Ids.choose, Option.filter, hvoid, he, Label.ofText, Label.fromText]

/-! ## New clips and tracks -/

/-- A track that has just been added. -/
structure Track.Blank (track : Track α) (id : String) (kind : TrackKind) : Prop where
  id : track.id = id
  kind : track.kind = kind
  clips : track.clips = []
  gain : track.gain = 1.0

/-- The clip that an asset becomes on a track. -/
def Track.clipOf (track : Track α) (asset : Asset α) (start : α) (id : String) : Clip α where
  id := id
  mediaId := asset.id
  trackId := track.id
  kind := asset.kind
  name := asset.name
  start := Scalar.plain (Scalar.larger 0.0 start)
  rawDuration := Scalar.larger minClipDuration asset.timelineDuration
  trimIn := 0.0
  trimOut := 0.0
  crop := none
  transform := none
  audioMuted := false
  detachedAudio := none
  linkedVideo := none

/-- A transition that goes to another clip if it is at the end of one that is cut. -/
def Transition.rehomed (clipId id : String) (x : Transition α) : Transition α :=
  if x.clipId == clipId && x.side == .finish then { x with clipId := id } else x

/-- An image whose end is dragged to a time. -/
def Clip.stretched (c : Clip α) (time : α) : Clip α :=
  { c with
    rawDuration := c.trimIn + (Scalar.larger (c.start + minClipDuration) time - c.start)
    trimOut := 0.0 }

namespace Timeline

variable {t u : Timeline α} {track : Track α} {ids rest : Ids} {clipId trackId : String}
  {given : Option String}

/-! ## Clips exchanged -/

/-- The timeline after one clip of a track is exchanged for another. The track is settled
anew, unless a change of the clip names no timing. -/
inductive Exchanged (t : Timeline α) : Timeline α → Prop where
  | changed {track : Track α} {old new : Clip α} {changes : Fields α} {clips : List (Clip α)}
      (b : Bool) (ht : track ∈ t.tracks) (ho : old ∈ track.clips)
      (hedit : ∀ change ∈ changes, ClipChange.editable.contains change.1 = true)
      (hnew : old.change changes = .ok new)
      (hclips : clips = resolve (replaceClip track.clips new) ∨
        (ClipChange.timing.any fun name => changes.has name) = false ∧
          clips = replaceClip track.clips new) :
      Exchanged t ((t.replaceTrack { track with clips }).renewed b)
  | stretched {track : Track α} {old : Clip α} (time : α) (b : Bool) (ht : track ∈ t.tracks)
      (ho : old ∈ track.clips) :
      Exchanged t
        ((t.replaceTrack (track.settle (replaceClip track.clips (old.stretched time)))).renewed b)

/-- A change of a clip that is not refused: nothing if the clip is not there or its track is
locked, and else the clip exchanged for the changed one. -/
theorem updateClip_eq_ok {changes : Fields α} (h : t.updateClip clipId changes = .ok u) :
    (t.editable? clipId = none ∧ u = t) ∨
    ∃ track clip new b, t.editable? clipId = some (track, clip) ∧
      (∀ change ∈ changes, ClipChange.editable.contains change.1 = true) ∧
      clip.change changes = .ok new ∧
      u = (t.replaceTrack (if ClipChange.timing.any fun name => changes.has name then
        track.settle (replaceClip track.clips new)
        else { track with clips := replaceClip track.clips new })).renewed b := by
  unfold updateClip at h
  split at h
  · next hnone =>
    cases h
    exact .inl ⟨hnone, rfl⟩
  next track clip hclip =>
  dsimp only at h
  cases hknown : ((changes.map (·.1)).filter fun name => !ClipChange.editable.contains name).isEmpty
  · rw [hknown] at h
    cases h
  rw [hknown, Bool.not_true, if_neg Bool.false_ne_true, bind_eq_ok] at h
  obtain ⟨changed, hchanged, h⟩ := h
  cases h
  exact .inr ⟨track, clip, changed, _, hclip, by simpa using hknown, hchanged, rfl⟩

theorem updateClip_cases {changes : Fields α} (h : t.updateClip clipId changes = .ok u) :
    u = t ∨ t.Exchanged u := by
  rcases updateClip_eq_ok h with ⟨-, rfl⟩ | ⟨track, clip, new, b, hclip, hedit, hnew, rfl⟩
  · exact .inl rfl
  obtain ⟨ht, -, hc, -⟩ := editable?_eq_some hclip
  right
  split
  · exact .changed b ht hc hedit hnew (.inl rfl)
  · next htiming => exact .changed b ht hc hedit hnew (.inr ⟨Bool.not_eq_true _ ▸ htiming, rfl⟩)

theorem resizeClip_cases {edge : Edge} {time : α} (h : t.resizeClip clipId edge time = .ok u) :
    u = t ∨ t.Exchanged u := by
  unfold resizeClip at h
  split at h
  · cases h
    exact .inl rfl
  next track clip hclip =>
  obtain ⟨ht, -, hc, -⟩ := editable?_eq_some hclip
  split at h
  · exact updateClip_cases h
  · split at h
    · cases h
      exact .inr (.stretched time _ ht hc)
    · exact updateClip_cases h

/-! ## Tracks set otherwise -/

/-- The timeline after a track is muted, locked or made louder, or the other way. -/
def Retuned (t u : Timeline α) : Prop :=
  ∃ track ∈ t.tracks, ∃ muted locked gain,
    (gain = track.gain ∨ ∃ asked, gain = Scalar.clamp asked 0.0 1.0) ∧
      u = t.replaceTrack { track with muted, locked, gain }

theorem toggleTrackMute_cases (t : Timeline α) (trackId : String) :
    t.toggleTrackMute trackId = t ∨ t.Retuned (t.toggleTrackMute trackId) := by
  unfold toggleTrackMute
  split
  · exact .inl rfl
  · next htrack => exact .inr ⟨_, (mem_of_findTrack htrack).1, _, _, _, .inl rfl, rfl⟩

theorem toggleTrackLock_cases (t : Timeline α) (trackId : String) :
    t.toggleTrackLock trackId = t ∨ t.Retuned (t.toggleTrackLock trackId) := by
  unfold toggleTrackLock
  split
  · exact .inl rfl
  · next htrack => exact .inr ⟨_, (mem_of_findTrack htrack).1, _, _, _, .inl rfl, rfl⟩

theorem setTrackGain_cases (t : Timeline α) (trackId : String) (gain : α) :
    t.setTrackGain trackId gain = t ∨ t.Retuned (t.setTrackGain trackId gain) := by
  unfold setTrackGain
  split
  · exact .inl rfl
  · next htrack => exact .inr ⟨_, (mem_of_findTrack htrack).1, _, _, _, .inr ⟨gain, rfl⟩, rfl⟩

/-! ## Clips put on a track -/

theorem addClip_cases {asset : Asset α} {start : α}
    (h : t.addClip trackId asset start given ids = (u, rest)) :
    (u = t ∧ rest = ids) ∨
    ∃ track ∈ t.tracks, track.id = trackId ∧ track.kind.accepts asset.kind = true ∧
      rest = (ids.choose given).2 ∧ u = t.replaceTrack (track.settle
        (track.clips ++ [track.clipOf asset start (ids.choose given).1])) := by
  unfold addClip at h
  split at h
  · cases h
    exact .inl ⟨rfl, rfl⟩
  next track htrack =>
  obtain ⟨ht, hid, -, hkind⟩ := receiver?_eq_some htrack
  cases h
  exact .inr ⟨track, ht, hid, hkind, rfl, rfl⟩

/-- A clip is put at another place of its track, or is taken off and put on another. -/
theorem moveClip_cases (t : Timeline α) (clipId trackId : String) (start : α) :
    t.moveClip clipId trackId start = t ∨
    ∃ source ∈ t.tracks, ∃ target ∈ t.tracks, ∃ clip ∈ source.clips,
      clip.id = clipId ∧ target.id = trackId ∧ target.kind.accepts clip.kind = true ∧
      let moved : Clip α := { clip with trackId := target.id, start := Scalar.larger 0.0 start }
      ((source.id = target.id ∧ t.moveClip clipId trackId start =
          t.replaceTrack (source.settle (replaceClip source.clips moved))) ∨
        (source.id ≠ target.id ∧ t.moveClip clipId trackId start =
          (t.replaceTrack { source with clips := source.clips.filter (·.id != clipId) }).replaceTrack
            (target.settle (target.clips ++ [moved])))) := by
  unfold moveClip
  split
  · exact .inl rfl
  next source clip hclip =>
  obtain ⟨hs, -, hc, hid⟩ := editable?_eq_some hclip
  split
  · exact .inl rfl
  next target htarget =>
  obtain ⟨ht, htid, -, hkind⟩ := receiver?_eq_some htarget
  refine .inr ⟨source, hs, target, ht, clip, hc, hid, htid, hkind, ?_⟩
  dsimp only
  split
  · next he => exact .inl ⟨beq_iff_eq.1 he, rfl⟩
  · next he => exact .inr ⟨by simpa using he, rfl⟩

theorem splitClip_cases {time : α}
    (h : t.splitClip clipId time given ids = (u, rest)) :
    (u = t ∧ rest = ids) ∨
    ∃ track ∈ t.tracks, ∃ clip ∈ track.clips, clip.id = clipId ∧ cuts clip time = true ∧
      rest = (ids.choose given).2 ∧
      ∃ transitions, transitions = t.transitions.map (Transition.rehomed clipId (ids.choose given).1) ∧
        u =
        let id := (ids.choose given).1
        let cut : Timeline α := { t.replaceTrack (track.settle (track.clips.flatMap fun c =>
          if c.id == clipId then [headPart clip time, tailPart clip id time] else [c])) with
          transitions }
        if clip.detachedAudio.isSome || clip.linkedVideo.isSome then
          cut.mapClips (Clip.unlink [clipId] false)
        else cut := by
  unfold splitClip at h
  split at h
  · cases h
    exact .inl ⟨rfl, rfl⟩
  next track clip hclip =>
  obtain ⟨ht, -, hc, hid⟩ := editable?_eq_some hclip
  split at h
  · cases h
    exact .inl ⟨rfl, rfl⟩
  next hcuts =>
  refine .inr ⟨track, ht, clip, hc, hid, by simpa using hcuts, ?_⟩
  simp only [chooseLabel_eq] at h
  split at h <;> cases h
  · next hlinks => exact ⟨rfl, _, rfl, by rw [if_pos hlinks]; rfl⟩
  · next hlinks => exact ⟨rfl, _, rfl, by rw [if_neg hlinks]; rfl⟩

/-! ## New tracks -/

theorem addTrack_cases (t : Timeline α) (kind : TrackKind) (name given : Option String) (ids : Ids) :
    ∃ track : Track α, track.Blank (ids.choose given).1 kind ∧
      t.addTrack kind name given ids = ({ t with tracks := t.tracks ++ [track] }, (ids.choose given).2) :=
  ⟨_, ⟨rfl, rfl, rfl, rfl⟩, rfl⟩

theorem audioTrack_cases (t : Timeline α) (ids : Ids) :
    ∃ track : Track α, track.kind = .audio ∧
      ((track ∈ t.tracks ∧ (t.tracksOfKind [.audio]).find? (!·.locked) = some track ∧
          t.audioTrack ids = (t, ids, some track)) ∨
        (track.Blank ids.next .audio ∧
          t.audioTrack ids = ({ t with tracks := t.tracks ++ [track] }, ids.rest, some track))) := by
  unfold audioTrack
  split
  · next track htrack =>
    have hmem := List.mem_of_find?_eq_some htrack
    simp only [tracksOfKind, List.mem_filter] at hmem
    exact ⟨track, by simpa using hmem.2, .inl ⟨hmem.1, htrack, rfl⟩⟩
  · obtain ⟨track, hblank, htrack⟩ := t.addTrack_cases .audio none none ids
    refine ⟨track, hblank.kind, .inr ⟨hblank, ?_⟩⟩
    simp only [htrack, List.getLast?_concat]
    rfl

theorem audioTrack_le (h : t.audioTrack ids = (u, rest, some track)) : ids.issued ≤ rest.issued := by
  obtain ⟨_, -, ⟨-, -, he⟩ | ⟨-, he⟩⟩ := t.audioTrack_cases ids <;> rw [he] at h <;> cases h
  · exact le_rfl
  · exact Nat.le_succ _

theorem detachable?_eq_some {video : Clip α} (h : t.detachable? clipId = some video) :
    video ∈ t.allClips ∧ video.id = clipId ∧ video.kind = .video ∧
      (isDetached video = true → video.detachedAudio.bind t.findClip = none) := by
  unfold detachable? at h
  split at h
  · cases h
  next track clip hclip =>
  obtain ⟨ht, -, hc, hid⟩ := editable?_eq_some hclip
  split at h
  · cases h
  next hkind =>
  split at h
  · cases h
  next hfree =>
  cases h
  refine ⟨mem_allClips ht hc, hid, not_not.1 hkind, fun hdetached => ?_⟩
  simpa [hdetached] using hfree

/-- A video clip's sound is put on an audio track, and the video clip linked to it. -/
theorem detachAudio_cases (h : t.detachAudio clipId given ids = .ok (u, rest)) :
    (u = t ∧ rest = ids) ∨
    ∃ video t₁ ids₁ track audio, t.detachable? clipId = some video ∧
      (if isDetached video then t.repairLinks else t).audioTrack ids = (t₁, ids₁, some track) ∧
      rest = (ids₁.choose given).2 ∧
      (detachedFrom video (ids₁.choose given).1 track.id).recheck = .valid audio ∧
      u = (t₁.replaceTrack (track.settle (track.clips ++ [audio]))).mapClips fun c =>
        if c.id == video.id then { c with audioMuted := false, detachedAudio := some audio.id }
        else c := by
  unfold detachAudio at h
  split at h
  · cases h
    exact .inl ⟨rfl, rfl⟩
  next video hvideo =>
  dsimp only at h
  obtain ⟨track, -, htrack⟩ := (if isDetached video then t.repairLinks else t).audioTrack_cases ids
  have hsome : ∃ t₁ ids₁, (if isDetached video then t.repairLinks else t).audioTrack ids =
      (t₁, ids₁, some track) := by
    rcases htrack with ⟨-, -, he⟩ | ⟨-, he⟩ <;> exact ⟨_, _, he⟩
  obtain ⟨t₁, ids₁, he⟩ := hsome
  rw [he] at h
  simp only [chooseLabel_eq, bind_eq_ok, Report.orRefuse_eq_ok] at h
  obtain ⟨audio, haudio, h⟩ := h
  cases h
  exact .inr ⟨video, t₁, ids₁, track, audio, hvideo, he, rfl, haudio, rfl⟩

/-! ## Edits that leave the clips alone -/

theorem overlayTrack_cases {id : String}
    (h : t.overlayTrack given ids = some (u, rest, id)) :
    u = t ∧ rest = ids ∨
      ∃ track : Track α, track.Blank ids.next .text ∧ rest = ids.rest ∧
        u = { t with tracks := t.tracks ++ [track] } := by
  unfold overlayTrack at h
  split at h
  · split at h
    · split at h <;> cases h
      exact .inl ⟨rfl, rfl⟩
    · cases h
  · split at h
    · cases h
      exact .inl ⟨rfl, rfl⟩
    · obtain ⟨track, hblank, htrack⟩ := t.addTrack_cases .text none none ids
      simp only [htrack, List.getLast?_concat, Option.map_some, Option.some.injEq,
        Prod.mk.injEq] at h
      obtain ⟨rfl, rfl, -⟩ := h
      exact .inr ⟨track, hblank, rfl, rfl⟩

/-- What a new overlay is read from. -/
def overlayFields (style : Fields α) (overlayId text start : Json α) (trackId : String)
    (ids : Ids) : Fields α :=
  style.override [("id", if overlayId.isVoid then .text ids.next else overlayId),
    ("track_id", .text trackId), ("text", text), ("start_time", start)]

/-- An overlay is added just when it can be read, if there is a track for it. -/
theorem addOverlay_eq_ok {ι : Type} {t u : Timeline α ι} {text wanted overlayId : Json α}
    {style : Fields α} :
    t.addOverlay text given wanted overlayId style ids = .ok (u, rest) ↔
      (t.overlayTrack given ids = none ∧ u = t ∧ rest = ids) ∨
      ∃ t₁ ids₁ trackId start, ∃ o : Overlay α,
        t.overlayTrack given ids = some (t₁, ids₁, trackId) ∧ ClipChange.floor wanted = .ok start ∧
        style.has "id" = false ∧
        Overlay.read (overlayFields style overlayId text start trackId ids₁) = .valid o ∧
        let siblings := sortByStart (t₁.overlaysOn trackId)
        let place := placeAfter siblings o.duration (siblings.length + 1) o.start
        u = { t₁ with overlays := t₁.overlays ++ [{ o with start := place }] } ∧
          rest = if overlayId.isVoid then ids₁.rest else ids₁ := by
  unfold addOverlay overlayFields
  cases htrack : t.overlayTrack given ids with
  | none =>
    constructor
    · rintro ⟨⟩
      exact .inl ⟨rfl, rfl, rfl⟩
    · rintro (⟨-, rfl, rfl⟩ | ⟨_, _, _, _, _, he, -⟩)
      · rfl
      · cases he
  | some found =>
    obtain ⟨t₁, ids₁, trackId⟩ := found
    constructor
    · intro h
      simp only [bind_eq_ok] at h
      obtain ⟨start, hstart, h⟩ := h
      split at h
      · cases h
      next hstyle =>
      simp only [bind_eq_ok, Report.orRefuse_eq_ok] at h
      obtain ⟨o, ho, h⟩ := h
      cases h
      refine .inr ⟨t₁, ids₁, trackId, start, o, rfl, hstart, by simpa using hstyle, ?_, rfl, ?_⟩
      · rw [← ho]
        split <;> rfl
      · split <;> rfl
    · rintro (⟨h, -⟩ | ⟨_, _, _, start, o, he, hstart, hstyle, ho, rfl, rfl⟩)
      · cases h
      cases he
      rw [← Report.orRefuse_eq_ok] at ho
      cases hvoid : overlayId.isVoid <;> simp only [hvoid, if_true, if_false, Bool.false_eq_true] at ho ⊢ <;>
        simp [hstart, hstyle, ho, bind, Except.bind, pure, Except.pure]

theorem addOverlay_cases {text start overlayId : Json α} {style : Fields α}
    (h : t.addOverlay text given start overlayId style ids = .ok (u, rest)) :
    u.tracks = t.tracks ∨
      ∃ track : Track α, track.Blank ids.next .text ∧ ids.issued < rest.issued ∧
        u.tracks = t.tracks ++ [track] := by
  rcases addOverlay_eq_ok.1 h with
    ⟨-, rfl, -⟩ | ⟨t₁, ids₁, trackId, place, o, htrack, -, -, -, rfl, rfl⟩
  · exact .inl rfl
  have hle : ids₁.issued ≤ (if overlayId.isVoid then ids₁.rest else ids₁).issued := by
    split
    · exact Nat.le_succ _
    · exact le_rfl
  rcases overlayTrack_cases htrack with ⟨rfl, rfl⟩ | ⟨track, hblank, rfl, rfl⟩
  · exact .inl rfl
  · exact .inr ⟨track, hblank, hle, rfl⟩

theorem updateOverlay_tracks {overlayId : String} {changes : Fields α}
    (h : t.updateOverlay overlayId changes = .ok u) : u.tracks = t.tracks := by
  unfold updateOverlay at h
  split at h
  · cases h
    rfl
  dsimp only at h
  split at h
  · cases h
  rw [bind_eq_ok] at h
  obtain ⟨_, -, h⟩ := h
  split at h <;> cases h <;> rfl

theorem moveOverlay_tracks (t : Timeline α) (overlayId trackId : String) :
    (t.moveOverlay overlayId trackId).tracks = t.tracks := by
  unfold moveOverlay
  split
  · split <;> rfl
  · rfl

theorem setTransition_tracks (t : Timeline α) (kind : TransitionKind) (duration : α) (side : Side)
    (ids : Ids) : (t.setTransition clipId kind duration side ids).1.tracks = t.tracks := by
  unfold setTransition
  dsimp only
  split
  · rfl
  · split <;> rfl

theorem setLook_tracks {params : Fields α} (h : t.setLook clipId params = .ok u) :
    u.tracks = t.tracks := by
  unfold setLook at h
  split at h
  · cases h
    rfl
  · rw [bind_eq_ok] at h
    obtain ⟨_, -, h⟩ := h
    cases h
    rfl

end Timeline

end Montage
