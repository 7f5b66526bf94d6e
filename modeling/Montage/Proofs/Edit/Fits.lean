/-
Clips that fit a track, in exact arithmetic: they are on it and of a kind that it
takes, within the bounds of their fields, and seen for the least length.

Every clip that an edit puts on a track or in the place of another fits, if the
clip that it is made from does.
-/
import Montage.Proofs.Edit.Steps

namespace Montage

/-- A clip that may stand on the track of an id and a kind. -/
structure Clip.Fits (id : String) (kind : TrackKind) (c : Clip Rat) : Prop extends c.Valid where
  home : c.trackId = id
  accepted : kind.accepts c.kind = true
  visible : minClipDuration ≤ c.visibleDuration

namespace Clip.Fits

variable {c d : Clip Rat} {id : String} {kind : TrackKind}

theorem trimsFit (h : c.Fits id kind) : TrimsFit c.rawDuration c.trimIn c.trimOut :=
  ⟨h.trimIn, h.trimOut, h.visible⟩

theorem least_le_rawDuration (h : c.Fits id kind) : minClipDuration ≤ c.rawDuration := by
  have := h.visible
  have := h.trimIn
  have := h.trimOut
  simp only [visibleDuration] at *
  linarith

theorem tolerance_lt_length (h : c.Fits id kind) : overlapTolerance < c.visibleDuration := by
  have := h.visible
  rw [minClipDuration_eq] at this
  rw [overlapTolerance_eq]
  linarith

theorem tolerance_le_length (h : c.Fits id kind) : overlapTolerance ≤ c.visibleDuration :=
  h.tolerance_lt_length.le

theorem length_pos (h : c.Fits id kind) : 0 < c.visibleDuration := by
  have := h.tolerance_lt_length
  rw [overlapTolerance_eq] at this
  linarith

theorem length_nonneg (h : c.Fits id kind) : 0 ≤ c.visibleDuration := h.length_pos.le

theorem startingAt (h : c.Fits id kind) {s : Rat} (hs : 0 ≤ s) :
    ({ c with start := s } : Clip Rat).Fits id kind :=
  { h with start := hs }

/-- A clip cut anew from the same media, for the same track. -/
theorem recut (h : c.Fits id kind) (hhome : d.trackId = c.trackId) (hkind : d.kind = c.kind)
    (hcrop : d.crop = c.crop) (htransform : d.transform = c.transform) (hs : 0 ≤ d.start)
    (hraw : 0 < d.rawDuration) (ht : TrimsFit d.rawDuration d.trimIn d.trimOut) : d.Fits id kind where
  start := hs
  rawDuration := hraw
  trimIn := ht.trimIn
  trimOut := ht.trimOut
  crop := hcrop ▸ h.crop
  transform := htransform ▸ h.transform
  home := hhome.trans h.home
  accepted := hkind ▸ h.accepted
  visible := ht.visible

theorem stretched (h : c.Fits id kind) (time : Rat) : (c.stretched time).Fits id kind := by
  have hle := le_max_left (c.start + minClipDuration) time
  have hin := h.trimIn
  rw [minClipDuration_eq] at hle
  refine h.recut rfl rfl rfl rfl h.start ?_ ⟨hin, by simp [Clip.stretched], ?_⟩ <;>
    simp only [Clip.stretched, Scalar.larger_eq_max, Scalar.zero_eq, minClipDuration_eq] <;> linarith

theorem moved (h : c.Fits id kind) {track : Track Rat} (hkind : track.kind.accepts c.kind = true)
    (start : Rat) : ({ c with trackId := track.id, start := Scalar.larger 0.0 start } : Clip Rat).Fits
      track.id track.kind :=
  { h with
    start := by simp
    home := rfl
    accepted := hkind }

theorem clipOf {track : Track Rat} {asset : Asset Rat} (hkind : track.kind.accepts asset.kind = true)
    (start : Rat) (newId : String) : (track.clipOf asset start newId).Fits track.id track.kind := by
  have hraw : minClipDuration ≤ Scalar.larger minClipDuration asset.timelineDuration := by simp
  have hpos : 0 < Scalar.larger minClipDuration asset.timelineDuration :=
    lt_of_lt_of_le (by norm_num [minClipDuration_eq]) hraw
  exact {
    start := by simp [Track.clipOf]
    rawDuration := hpos
    trimIn := by simp [Track.clipOf]
    trimOut := by simp [Track.clipOf]
    crop := by simp [Track.clipOf]
    transform := by simp [Track.clipOf]
    home := rfl
    accepted := hkind
    visible := by simp [Clip.visibleDuration, Track.clipOf] }

theorem of_changed {changes : Fields Rat} {head tail : Rat} (h : c.Fits id kind)
    (hd : c.Changed changes head tail d) : d.Fits id kind := by
  have ht := clampTrims_fits h.least_le_rawDuration head tail
  rw [← hd.trims, ← hd.rawDuration] at ht
  exact { hd.valid with
          home := hd.trackId.trans h.home
          accepted := hd.kind ▸ h.accepted
          visible := ht.visible }

/-- A change that names no timing keeps the clip where it is and as long. -/
theorem same_place {changes : Fields Rat} {head tail : Rat} (h : c.Fits id kind)
    (hd : c.Changed changes head tail d)
    (hn : (ClipChange.timing.any fun name => changes.has name) = false) :
    d.start = c.start ∧ d.visibleDuration = c.visibleDuration := by
  have hnone : ∀ name ∈ ClipChange.timing, changes.get? name = none := fun name hname => by
    simpa [Fields.has_eq_isSome] using List.any_eq_false.1 hn name hname
  have hhead := hd.head
  have htail := hd.tail
  rw [hnone _ (by decide), Option.getD_none, ClipChange.operand_real, Except.ok.injEq] at hhead htail
  have htrims := hd.trims
  rw [← hhead, ← htail, clampTrims_of_fits h.trimsFit, Prod.mk.injEq] at htrims
  refine ⟨hd.start_of_none (hnone _ (by decide)), ?_⟩
  simp only [visibleDuration, hd.rawDuration, htrims.1, htrims.2]

end Clip.Fits

/-! ## Clips made from others -/

section Parts

variable {clip : Clip Rat} {time : Rat} {id newId : String} {kind : TrackKind}

theorem cuts_eq_true : Timeline.cuts clip time = true ↔
    clip.start + minClipDuration ≤ time ∧ time ≤ clip.finish - minClipDuration := by
  simp [Timeline.cuts]

theorem headPart_length (clip : Clip Rat) (time : Rat) :
    (Timeline.headPart clip time).visibleDuration = time - clip.start := by
  simp only [Timeline.headPart, Clip.visibleDuration]
  ring

theorem tailPart_length (clip : Clip Rat) (id : String) (time : Rat) :
    (Timeline.tailPart clip id time).visibleDuration = clip.finish - time := by
  simp only [Timeline.tailPart, Clip.finish, Clip.visibleDuration]
  ring

theorem headPart_finish (clip : Clip Rat) (time : Rat) :
    (Timeline.headPart clip time).finish = time := by
  rw [Clip.finish, headPart_length]
  exact add_sub_cancel clip.start time

theorem tailPart_finish (clip : Clip Rat) (id : String) (time : Rat) :
    (Timeline.tailPart clip id time).finish = clip.finish := by
  rw [Clip.finish, tailPart_length]
  exact add_sub_cancel time clip.finish

theorem headPart_fits (h : clip.Fits id kind) (hcuts : Timeline.cuts clip time = true) :
    (Timeline.headPart clip time).Fits id kind := by
  obtain ⟨hfirst, hlast⟩ := cuts_eq_true.1 hcuts
  rw [Clip.finish, Clip.visibleDuration] at hlast
  rw [minClipDuration_eq] at hfirst hlast
  have hin := h.trimIn
  have hout := h.trimOut
  refine h.recut rfl rfl rfl rfl h.start h.rawDuration ⟨hin, ?_, ?_⟩ <;>
    simp only [Timeline.headPart, minClipDuration_eq] <;> linarith

theorem tailPart_fits (h : clip.Fits id kind) (hcuts : Timeline.cuts clip time = true) :
    (Timeline.tailPart clip newId time).Fits id kind := by
  obtain ⟨hfirst, hlast⟩ := cuts_eq_true.1 hcuts
  rw [Clip.finish, Clip.visibleDuration] at hlast
  rw [minClipDuration_eq] at hfirst hlast
  have hin := h.trimIn
  have hs := h.start
  refine h.recut rfl rfl rfl rfl ?_ h.rawDuration ⟨?_, h.trimOut, ?_⟩ <;>
    simp only [Timeline.tailPart, minClipDuration_eq] <;> linarith

theorem detachedFrom_fits {track : Track Rat} (h : clip.Fits id kind) (hkind : track.kind = .audio) :
    (Timeline.detachedFrom clip newId track.id).Fits track.id track.kind where
  start := h.start
  rawDuration := h.rawDuration
  trimIn := h.trimIn
  trimOut := h.trimOut
  crop := by simp [Timeline.detachedFrom]
  transform := by simp [Timeline.detachedFrom]
  home := rfl
  accepted := by rw [hkind]; rfl
  visible := h.visible

/-- The audio clip detached from a clip that fits is within the bounds of its fields, so
that it is put on its track as it is. -/
theorem eq_of_recheck_detachedFrom {track : Track Rat} {audio : Clip Rat} (h : clip.Fits id kind)
    (hkind : track.kind = .audio)
    (ha : (Timeline.detachedFrom clip newId track.id).recheck = .valid audio) :
    audio = Timeline.detachedFrom clip newId track.id := by
  rw [Clip.recheck, Clip.read_fields (detachedFrom_fits h hkind).toValid, Report.valid.injEq] at ha
  exact ha.symm

end Parts

end Montage
