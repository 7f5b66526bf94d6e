/-
Timelines within their bounds, in exact arithmetic.

A timeline is within its bounds (`Timeline.Valid`) if its name is a text and all that is on it
is within the bounds of its fields. Whatever is read is so, and what is so is read back unchanged
(`Timeline.read_fields`); hence its shape can always be set, and nothing but the shape changes
(`Timeline.Valid.setAspectRatio_eq`). Every edit keeps a timeline within its bounds, whatever ids
are given (`Timeline.Valid.run`).
-/
import Montage.Proofs.Edit.Overlays
import Montage.Proofs.Edit.Sound

namespace Montage

/-! ## Overlays, transitions and looks -/

/-- An overlay within the bounds of its fields. -/
structure Overlay.Valid (o : Overlay Rat) : Prop where
  x : Within 0 100 o.x
  y : Within 0 100 o.y
  start : 0 ≤ o.start
  duration : 0 < o.duration

/-- A look within the bounds of its fields. -/
structure Look.Valid (l : Look Rat) : Prop where
  brightness : Within (-100) 100 l.brightness
  contrast : Within (-100) 100 l.contrast
  saturation : Within (-100) 100 l.saturation
  blur : Within 0 20 l.blur

section Records

variable {fs : Fields Rat}

theorem Overlay.valid_of_read {o : Overlay Rat} (h : Overlay.read fs = .valid o) : o.Valid := by
  obtain ⟨-, -, hstart, hduration⟩ := Overlay.parts_of_read h
  unfold Overlay.read at h
  simp only [Report.seq_eq_valid, Report.functor_map_eq_valid] at h
  obtain ⟨_, _, ⟨_, _, ⟨_, _, ⟨_, _, ⟨_, _, ⟨_, _, ⟨_, _, ⟨_, _, ⟨_, _, ⟨_, _, ⟨_, _, ⟨_, _, ⟨_, -, rfl⟩,
    -, rfl⟩, -, rfl⟩, hx, rfl⟩, hy, rfl⟩, -, rfl⟩, -, rfl⟩, -, rfl⟩, -, rfl⟩, -, rfl⟩, -, rfl⟩,
    -, rfl⟩, -, rfl⟩ := h
  have bound {name : String} {v : Rat} (hv : fs.withDefault name 50.0 Overlay.percent = .valid v) :
      Within 0 100 v := by
    have := within_of_clamped (by norm_num [Within]) (by norm_num) hv
    norm_num at this
    exact this
  exact ⟨bound hx, bound hy, nonneg_of_read hstart, Overlay.duration_pos_of_read hduration⟩

theorem Overlay.read_fields {o : Overlay Rat} (h : o.Valid) : Overlay.read o.fields = .valid o := by
  have percent {v : Rat} (hv : Within 0 100 v) : Overlay.percent (.real v) = .valid v :=
    congrArg Report.valid (clamp_of_within (by norm_num; exact hv))
  have hbackground : Read.optional Read.text (.optionalText o.background : Json Rat) =
      .valid o.background := by
    cases o.background <;> rfl
  have hstart : Read.nonnegative (.real o.start) = .valid o.start :=
    Read.nonnegative_eq_valid.2 ⟨rfl, h.start⟩
  have hduration : Read.positive (.real o.duration) = .valid o.duration :=
    Read.positive_eq_valid.2 ⟨rfl, h.duration⟩
  unfold Overlay.read
  simp only [Overlay.fields, Fields.require, Fields.withDefault, Fields.get?_cons, String.reduceEq,
    if_true, if_false, Read.text_text, percent h.x, percent h.y, Read.integer, hbackground,
    Read.boolean_bool, hstart, hduration]
  rfl

theorem Transition.read_fields {x : Transition Rat} (h : x.Valid) :
    Transition.read x.fields = .valid x := by
  have hkind : Read.choice (.text x.kind.word : Json Rat) = .valid x.kind := by
    cases x.kind <;> rfl
  have hduration : Transition.length (.real x.duration) = .valid x.duration :=
    congrArg Report.valid ((Scalar.larger_eq_max _ _).trans (max_eq_right h.duration))
  unfold Transition.read
  simp only [Transition.fields, Fields.require, Fields.withDefault, Fields.get?_cons, String.reduceEq,
    if_true, if_false, Read.text_text, Read.label_data, hkind, hduration, Read.choice_side]
  rfl

theorem Look.valid_of_read {l : Look Rat} (h : Look.read fs = .valid l) : l.Valid := by
  unfold Look.read at h
  simp only [Report.seq_eq_valid, Report.functor_map_eq_valid] at h
  obtain ⟨_, _, ⟨_, _, ⟨_, _, ⟨_, _, ⟨_, _, ⟨_, _, ⟨_, _, ⟨_, -, rfl⟩, -, rfl⟩, hbrightness, rfl⟩,
    hcontrast, rfl⟩, hsaturation, rfl⟩, -, rfl⟩, -, rfl⟩, hblur, rfl⟩ := h
  have bound {name : String} {v : Rat}
      (hv : fs.withDefault name 0.0 Look.signedPercent = .valid v) : Within (-100) 100 v := by
    have := within_of_clamped (by norm_num [Within]) (by norm_num) hv
    norm_num at this
    exact this
  have hblur := within_of_clamped (by norm_num [Within]) (by norm_num) hblur
  norm_num at hblur
  exact ⟨bound hbrightness, bound hcontrast, bound hsaturation, hblur⟩

theorem Look.read_fields {l : Look Rat} (h : l.Valid) : Look.read l.fields = .valid l := by
  have percent {v : Rat} (hv : Within (-100) 100 v) : Look.signedPercent (.real v) = .valid v :=
    congrArg Report.valid (clamp_of_within (by norm_num; exact hv))
  have hblur : Scalar.clamp l.blur 0.0 20.0 = l.blur := clamp_of_within (by norm_num; exact h.blur)
  unfold Look.read
  simp only [Look.fields, Fields.require, Fields.withDefault, Fields.get?_cons, String.reduceEq,
    if_true, if_false, Read.label_data, Read.text_text, percent h.brightness, percent h.contrast,
    percent h.saturation, Read.boolean_bool, Read.number_real, Report.map, hblur]
  rfl

/-! ## Tracks and timelines -/

/-- What holds of every record that is read holds of all in a list of records. -/
theorem forall_mem_of_read_list {β : Type} {P : β → Prop} {read : Fields Rat → Report β} {fault : Fault}
    (hread : ∀ gs b, read gs = .valid b → P b) {name : String} {bs : List β}
    (h : fs.withDefault name [] (Read.list fault (Read.record read)) = .valid bs) : ∀ b ∈ bs, P b := by
  unfold Fields.withDefault at h
  split at h
  · next j _ =>
    rw [Report.under_eq_valid] at h
    cases j <;> simp only [Read.list, Report.fault_ne_valid] at h
    have hitems : List.Forall₂ (fun b j => P b ∧ Read.record read j = .valid b) bs _ :=
      ((Report.items_eq_valid _ _ _).1 h).flip.imp fun b j hb => ⟨by
        cases j <;> simp only [Read.record, Report.fault_ne_valid] at hb
        exact hread _ b hb, hb⟩
    exact ((List.forall₂_and_left _ _).1 hitems).1
  · cases h
    simp

theorem Track.valid_of_read {track : Track Rat} (h : Track.read fs = .valid track) : track.Valid := by
  unfold Track.read at h
  simp only [Report.seq_eq_valid, Report.functor_map_eq_valid] at h
  obtain ⟨_, _, ⟨_, _, ⟨_, _, ⟨_, clips, ⟨_, _, ⟨_, _, ⟨_, -, rfl⟩, -, rfl⟩, -, rfl⟩, hclips, rfl⟩,
    -, rfl⟩, -, rfl⟩, hgain, rfl⟩ := h
  have hgain := within_of_clamped (by norm_num [Within]) (by norm_num) hgain
  norm_num at hgain
  exact ⟨forall_mem_of_read_list (fun _ _ => Clip.valid_of_read) hclips, hgain⟩

end Records

/-- An image whose end is dragged is seen for the least length at least. -/
theorem Clip.Valid.stretched {c : Clip Rat} (h : c.Valid) (time : Rat) : (c.stretched time).Valid := by
  have hle := le_max_left (c.start + minClipDuration) time
  have hin := h.trimIn
  rw [minClipDuration_eq] at hle
  refine { h with rawDuration := ?_, trimOut := by simp [Clip.stretched] }
  simp only [Clip.stretched, Scalar.larger_eq_max, minClipDuration_eq]
  linarith

/-- The parts of a clip that is cut. -/
theorem Clip.Valid.parts {c : Clip Rat} (h : c.Valid) {time : Rat} (hcuts : Timeline.cuts c time = true)
    (newId : String) : (Timeline.headPart c time).Valid ∧ (Timeline.tailPart c newId time).Valid := by
  obtain ⟨hfirst, hlast⟩ := cuts_eq_true.1 hcuts
  rw [Clip.finish, Clip.visibleDuration] at hlast
  rw [minClipDuration_eq] at hfirst hlast
  have hin := h.trimIn
  have hout := h.trimOut
  have hstart := h.start
  refine ⟨{ h with trimOut := ?_ }, { h with start := ?_, trimIn := ?_ }⟩
  · simp only [Timeline.headPart]
    linarith
  · simp only [Timeline.tailPart]
    linarith
  · simp only [Timeline.tailPart]
    linarith

namespace Track.Valid

variable {track : Track Rat} {clips : List (Clip Rat)} {clip : Clip Rat}

theorem settle (h : track.Valid) (hc : ∀ c ∈ clips, c.Valid) : (track.settle clips).Valid := by
  refine ⟨fun x hx => ?_, h.gain⟩
  obtain ⟨c, hmem, s, hle, rfl⟩ := exists_of_mem_resolve hx
  exact { hc c hmem with start := (hc c hmem).start.trans hle }

theorem place (h : track.Valid) (hc : clip.Valid) : (track.settle (track.clips ++ [clip])).Valid := by
  refine h.settle fun c hmem => ?_
  rw [List.mem_append, List.mem_singleton] at hmem
  rcases hmem with hmem | rfl
  · exact h.clips c hmem
  · exact hc

theorem filter (h : track.Valid) (p : Clip Rat → Bool) :
    ({ track with clips := track.clips.filter p } : Track Rat).Valid :=
  ⟨fun c hc => h.clips c (List.mem_of_mem_filter hc), h.gain⟩

theorem clips_replaceClip (h : track.Valid) (hc : clip.Valid) :
    ∀ c ∈ replaceClip track.clips clip, c.Valid := by
  intro c hmem
  rcases mem_replaceClip hmem with rfl | hmem
  · exact hc
  · exact h.clips c hmem

end Track.Valid

/-- Whether the name that an edit gives a project, if it gives one, is a text. -/
def Edit.NamesWithText {α : Type} : Edit α → Prop
  | .setProjectName name => ∃ s, name = .text s
  | _ => True

namespace Timeline

variable {t u : Timeline Rat} {track : Track Rat} {ids rest : Ids} {clipId trackId : String}
  {given : Option String}

/-- A timeline within the bounds of its fields. -/
structure Valid (t : Timeline Rat) : Prop where
  name : ∃ s, t.projectName = .text s
  tracks : ∀ track ∈ t.tracks, track.Valid
  overlays : ∀ o ∈ t.overlays, o.Valid
  transitions : ∀ x ∈ t.transitions, x.Valid
  looks : ∀ l ∈ t.looks, l.Valid

theorem valid_of_read {fs : Fields Rat} (h : Timeline.read fs = .valid t) : t.Valid := by
  unfold Timeline.read at h
  simp only [Report.seq_eq_valid, Report.functor_map_eq_valid] at h
  obtain ⟨_, _, ⟨_, _, ⟨_, _, ⟨_, _, ⟨_, _, ⟨_, ⟨name, -, rfl⟩, rfl⟩, -, rfl⟩, htracks, rfl⟩, hoverlays, rfl⟩,
    htransitions, rfl⟩, hlooks, rfl⟩ := h
  exact ⟨⟨name, rfl⟩, forall_mem_of_read_list (fun _ _ => Track.valid_of_read) htracks,
    forall_mem_of_read_list (fun _ _ => Overlay.valid_of_read) hoverlays,
    forall_mem_of_read_list (fun _ _ => Transition.valid_of_read) htransitions,
    forall_mem_of_read_list (fun _ _ => Look.valid_of_read) hlooks⟩

/-- A timeline within its bounds is read back from its own fields. -/
theorem read_fields (h : t.Valid) : Timeline.read t.fields = .valid { t with renewals := 0 } := by
  obtain ⟨name, hname⟩ := h.name
  have hratio : Read.choice (.text t.aspectRatio.word : Json Rat) = .valid t.aspectRatio := by
    cases t.aspectRatio <;> rfl
  have list {β : Type} {read : Fields Rat → Report β} {fields : β → Fields Rat} {bs : List β}
      (hread : ∀ b ∈ bs, read (fields b) = .valid b) :
      Read.list .notTuple (Read.record read) (.list (bs.map fun b => .object (fields b))) = .valid bs :=
    read_list_eq_valid.2 (List.forall₂_same.2 hread)
  unfold Timeline.read
  simp only [Timeline.fields, Fields.withDefault, Fields.get?_cons, String.reduceEq, if_true, if_false,
    hname, Read.text_text, hratio, list fun track ht => Track.read_fields (h.tracks track ht),
    list fun o ho => Overlay.read_fields (h.overlays o ho),
    list fun x hx => Transition.read_fields (h.transitions x hx),
    list fun l hl => Look.read_fields (h.looks l hl)]
  obtain ⟨projectName, aspectRatio, tracks, overlays, transitions, looks, renewals⟩ := t
  cases hname
  rfl

namespace Valid

/-- The shape of a timeline within its bounds can be set, and nothing else changes. -/
theorem setAspectRatio_eq (h : t.Valid) (ratio : AspectRatio) :
    t.setAspectRatio (.text ratio.word) = .valid { t with aspectRatio := ratio } := by
  have hput : t.fields.put "aspect_ratio" (.text ratio.word) = fields { t with aspectRatio := ratio } := rfl
  have hvalid : Valid { t with aspectRatio := ratio } :=
    ⟨h.name, h.tracks, h.overlays, h.transitions, h.looks⟩
  rw [setAspectRatio, hput, read_fields hvalid]
  rfl

/-! ## Steps -/

theorem replaceTrack (h : t.Valid) (hs : track.Valid) : (t.replaceTrack track).Valid :=
  { h with
    tracks := fun x hx => by
      rcases mem_replaceTrack hx with rfl | hx
      · exact hs
      · exact h.tracks x hx }

theorem renewed (h : t.Valid) (b : Bool) : (t.renewed b).Valid := by
  cases b
  · exact h
  · exact ⟨h.name, h.tracks, h.overlays, h.transitions, h.looks⟩

theorem mapClips (h : t.Valid) {f : Clip Rat → Clip Rat} (hf : Clip.Relinks f) : (t.mapClips f).Valid :=
  { h with
    tracks := fun x hx => by
      obtain ⟨track, ht, rfl⟩ := List.mem_map.1 hx
      refine ⟨fun c hc => ?_, (h.tracks track ht).gain⟩
      obtain ⟨d, hd, rfl⟩ := List.mem_map.1 hc
      obtain ⟨_, _, _, he⟩ := hf d
      exact he ▸ { (h.tracks track ht).clips d hd with } }

theorem append (h : t.Valid) {id : String} {kind : TrackKind} (hb : track.Blank id kind) :
    Valid { t with tracks := t.tracks ++ [track] } :=
  { h with
    tracks := fun x hx => by
      rw [List.mem_append, List.mem_singleton] at hx
      rcases hx with hx | rfl
      · exact h.tracks x hx
      · exact (Track.Sound.of_blank hb).valid }

theorem dropRecords (h : t.Valid) (removed : List String) : (t.dropRecords removed).Valid := by
  unfold Timeline.dropRecords
  split
  · exact h
  · refine mapClips ?_ fun _ => ⟨_, _, _, rfl⟩
    exact {
      h with
      looks := fun l hl => h.looks l (List.mem_of_mem_filter hl)
      transitions := fun x hx => h.transitions x (List.mem_of_mem_filter hx) }

theorem withOverlays (h : t.Valid) {overlays : List (Overlay Rat)} (ho : ∀ o ∈ overlays, o.Valid) :
    Valid { t with overlays } := { h with overlays := ho }

/-- To push overlays apart changes when they are shown, and none of them is shown earlier. -/
theorem settleOverlays (h : t.Valid) (trackId : String) : (t.settleOverlays trackId).Valid := by
  refine h.withOverlays (List.forall_mem_map.2 fun o ho => ?_)
  cases hfound : (resolve (t.overlaysOn trackId)).reverse.find? (·.id == o.id) with
  | none => exact h.overlays o ho
  | some x =>
    obtain ⟨b, hb, s, hle, rfl⟩ :=
      exists_of_mem_resolve (List.mem_reverse.1 (List.mem_of_find?_eq_some hfound))
    have hvalid := h.overlays b (List.mem_of_mem_filter hb)
    exact { hvalid with start := hvalid.start.trans hle }

/-- Some overlays are exchanged for others. -/
theorem mapOverlays (h : t.Valid) {p : Overlay Rat → Bool} {f : Overlay Rat → Overlay Rat}
    (hf : ∀ o ∈ t.overlays, (f o).Valid) :
    Valid { t with overlays := t.overlays.map fun o => if p o then f o else o } := by
  refine h.withOverlays (List.forall_mem_map.2 fun o ho => ?_)
  split
  · exact hf o ho
  · exact h.overlays o ho

/-! ## Edits -/

theorem exchanged (h : t.Valid) (he : u = t ∨ t.Exchanged u) : u.Valid := by
  rcases he with rfl | ⟨b, ht, ho, -, hnew, hclips⟩ | ⟨time, b, ht, ho⟩
  · exact h
  · have htrack := h.tracks _ ht
    obtain ⟨_, _, _, -, hread⟩ := Clip.read_of_change hnew
    have hclip := Clip.valid_of_read hread
    rcases hclips with rfl | ⟨-, rfl⟩
    · exact (h.replaceTrack (htrack.settle (htrack.clips_replaceClip hclip))).renewed b
    · refine (h.replaceTrack ?_).renewed b
      exact ⟨htrack.clips_replaceClip hclip, htrack.gain⟩
  · have htrack := h.tracks _ ht
    have hclip := (htrack.clips _ ho).stretched time
    exact (h.replaceTrack (htrack.settle (htrack.clips_replaceClip hclip))).renewed b

theorem retuned (h : t.Valid) (hu : u = t ∨ t.Retuned u) : u.Valid := by
  rcases hu with rfl | ⟨track, ht, muted, locked, gain, hgain, rfl⟩
  · exact h
  · refine h.replaceTrack ⟨(h.tracks track ht).clips, ?_⟩
    rcases hgain with rfl | ⟨asked, rfl⟩
    · exact (h.tracks track ht).gain
    · norm_num
      exact clamp_within zero_le_one asked

theorem removeTrack (h : t.Valid) (trackId : String) : (t.removeTrack trackId).Valid := by
  unfold Timeline.removeTrack
  split
  · exact h
  · refine dropRecords ?_ _
    exact {
      h with
      tracks := fun track ht => h.tracks track (List.mem_of_mem_filter ht)
      overlays := fun o ho => h.overlays o (List.mem_of_mem_filter ho) }

theorem removeClip (h : t.Valid) (clipId : String) : (t.removeClip clipId).Valid := by
  unfold Timeline.removeClip
  split
  · exact h
  · next track clip hclip =>
    have ht := (editable?_eq_some hclip).1
    exact (h.replaceTrack ((h.tracks track ht).filter _)).dropRecords _

theorem addClip (h : t.Valid) {asset : Asset Rat} {start : Rat}
    (hu : t.addClip trackId asset start given ids = (u, rest)) : u.Valid := by
  rcases addClip_cases hu with ⟨rfl, -⟩ | ⟨track, ht, -, hkind, -, rfl⟩
  · exact h
  · exact h.replaceTrack ((h.tracks track ht).place (Clip.Fits.clipOf hkind start _).toValid)

theorem moveClip (h : t.Valid) (clipId trackId : String) (start : Rat) :
    (t.moveClip clipId trackId start).Valid := by
  rcases moveClip_cases t clipId trackId start with
    he | ⟨source, hs, target, ht, clip, hc, -, -, -, hmoved⟩
  · rw [he]
    exact h
  have hsource := h.tracks source hs
  have hclip : ({ clip with trackId := target.id, start := Scalar.larger 0.0 start } : Clip Rat).Valid :=
    { hsource.clips clip hc with start := by simp }
  rcases hmoved with ⟨-, he⟩ | ⟨-, he⟩ <;> rw [he]
  · exact h.replaceTrack (hsource.settle (hsource.clips_replaceClip hclip))
  · exact (h.replaceTrack (hsource.filter _)).replaceTrack ((h.tracks target ht).place hclip)

theorem splitClip (h : t.Valid) {time : Rat} (hu : t.splitClip clipId time given ids = (u, rest)) :
    u.Valid := by
  rcases splitClip_cases hu with ⟨rfl, -⟩ | ⟨track, ht, clip, hc, -, hcuts, -, transitions, hx, rfl⟩
  · exact h
  have htrack := h.tracks track ht
  obtain ⟨hhead, htail⟩ := (htrack.clips clip hc).parts hcuts (ids.choose given).1
  have hparts : ∀ x ∈ track.clips.flatMap (fun c => if c.id == clipId then
      [headPart clip time, tailPart clip (ids.choose given).1 time] else [c]), x.Valid := by
    intro x hx
    obtain ⟨c, hmem, hx⟩ := List.mem_flatMap.1 hx
    split at hx
    · simp only [List.mem_cons, List.not_mem_nil, or_false] at hx
      rcases hx with rfl | rfl
      · exact hhead
      · exact htail
    · rw [List.mem_singleton.1 hx]
      exact htrack.clips c hmem
  have htransitions : ∀ x ∈ transitions, x.Valid := by
    rw [hx]
    refine List.forall_mem_map.2 fun x hmem => ⟨?_⟩
    unfold Transition.rehomed
    split <;> exact (h.transitions x hmem).duration
  have hcut : Valid { t.replaceTrack (track.settle (track.clips.flatMap fun c => if c.id == clipId then
      [headPart clip time, tailPart clip (ids.choose given).1 time] else [c])) with transitions } :=
    { h.replaceTrack (htrack.settle hparts) with transitions := htransitions }
  dsimp only
  split
  · exact hcut.mapClips fun _ => ⟨_, _, _, rfl⟩
  · exact hcut

theorem repairLinks (h : t.Valid) : t.repairLinks.Valid := h.mapClips fun _ => ⟨_, _, _, rfl⟩

theorem detachAudio (h : t.Valid) (hu : t.detachAudio clipId given ids = .ok (u, rest)) : u.Valid := by
  rcases detachAudio_cases hu with
    ⟨rfl, -⟩ | ⟨video, t₁, ids₁, track, audio, -, htrack, -, haudio, rfl⟩
  · exact h
  have hready : (if isDetached video then t.repairLinks else t).Valid := by
    split
    · exact h.repairLinks
    · exact h
  have hclip := Clip.valid_of_read haudio
  refine mapClips ?_ (Clip.relinks_ite (fun _ => ⟨_, _, _, rfl⟩) Clip.relinks_self)
  obtain ⟨found, -, ⟨hmem, -, he⟩ | ⟨hblank, he⟩⟩ := audioTrack_cases
    (if isDetached video then t.repairLinks else t) ids <;> rw [he] at htrack <;> cases htrack
  · exact hready.replaceTrack ((hready.tracks track hmem).place hclip)
  · have hmore := hready.append hblank
    exact hmore.replaceTrack ((hmore.tracks track (by simp)).place hclip)

theorem unlinkAudio (h : t.Valid) (clipId : String) : (t.unlinkAudio clipId).Valid := by
  unfold Timeline.unlinkAudio
  split
  · exact h
  · exact h.mapClips (Clip.relinks_ite (fun _ => ⟨_, _, _, rfl⟩) Clip.relinks_self)

theorem linkAudio (h : t.Valid) (videoId audioId : String) : (t.linkAudio videoId audioId).Valid := by
  unfold Timeline.linkAudio
  split
  · exact mapClips ((h.unlinkAudio videoId).unlinkAudio audioId)
      (Clip.relinks_ite (fun _ => ⟨_, _, _, rfl⟩)
        (Clip.relinks_ite (fun _ => ⟨_, _, _, rfl⟩) Clip.relinks_self))
  · exact h

theorem addOverlay (h : t.Valid) {text start overlayId : Json Rat} {style : Fields Rat}
    (hu : t.addOverlay text given start overlayId style ids = .ok (u, rest)) : u.Valid := by
  rcases addOverlay_eq_ok.1 hu with
    ⟨-, rfl, -⟩ | ⟨t₁, ids₁, trackId, place, o, htrack, -, -, ho, rfl, -⟩
  · exact h
  have h₁ : t₁.Valid := by
    rcases overlayTrack_cases htrack with ⟨rfl, -⟩ | ⟨track, hblank, -, rfl⟩
    · exact h
    · exact h.append hblank
  have hread := Overlay.valid_of_read ho
  obtain ⟨_, -, hsearch⟩ :=
    search_placeAfter (sortByStart (t₁.overlaysOn trackId)) o.duration o.start
  have hplaced := hsearch.isLeast.1.1
  refine h₁.withOverlays fun p hp => ?_
  rw [List.mem_append, List.mem_singleton] at hp
  rcases hp with hp | rfl
  · exact h₁.overlays p hp
  · exact { hread with start := hread.start.trans hplaced }

theorem updateOverlay (h : t.Valid) {overlayId : String} {changes : Fields Rat}
    (hu : t.updateOverlay overlayId changes = .ok u) : u.Valid := by
  unfold Timeline.updateOverlay at hu
  split at hu
  · cases hu
    exact h
  dsimp only at hu
  split at hu
  · cases hu
  rw [bind_eq_ok] at hu
  obtain ⟨new, hnew, hu⟩ := hu
  have hread := Overlay.valid_of_read (Report.orRefuse_eq_ok.1 hnew)
  split at hu <;> cases hu
  · exact (h.mapOverlays fun _ _ => hread).settleOverlays _
  · exact h.mapOverlays fun _ _ => hread

theorem moveOverlay (h : t.Valid) (overlayId trackId : String) :
    (t.moveOverlay overlayId trackId).Valid := by
  unfold Timeline.moveOverlay
  split
  · split
    · exact h
    · refine (h.mapOverlays fun o ho => ?_).settleOverlays _
      exact ⟨(h.overlays o ho).x, (h.overlays o ho).y, (h.overlays o ho).start,
        (h.overlays o ho).duration⟩
  · exact h

theorem setTransition (h : t.Valid) (kind : TransitionKind) (duration : Rat) (side : Side) (ids : Ids) :
    (t.setTransition clipId kind duration side ids).1.Valid := by
  have hmade (id : String) : Transition.Valid
      ⟨id, clipId, kind, Scalar.larger minTransitionDuration duration, side⟩ := ⟨by simp⟩
  unfold Timeline.setTransition
  dsimp only
  split
  · exact h
  · split
    · refine { h with transitions := List.forall_mem_map.2 fun x hx => ?_ }
      split
      · exact hmade _
      · exact h.transitions x hx
    · refine { h with transitions := fun x hx => ?_ }
      rw [List.mem_append, List.mem_singleton] at hx
      rcases hx with hx | rfl
      · exact h.transitions x hx
      · exact hmade _

theorem setLook (h : t.Valid) {params : Fields Rat} (hu : t.setLook clipId params = .ok u) : u.Valid := by
  unfold Timeline.setLook at hu
  split at hu
  · cases hu
    exact h
  rw [bind_eq_ok] at hu
  obtain ⟨look, hlook, hu⟩ := hu
  cases hu
  refine { h with looks := fun l hl => ?_ }
  rw [List.mem_append, List.mem_singleton] at hl
  rcases hl with hl | rfl
  · exact h.looks l (List.mem_of_mem_filter hl)
  · exact Look.valid_of_read (Report.orRefuse_eq_ok.1 hlook)

/-- **Every edit keeps a timeline within its bounds**, whatever ids it gives. -/
theorem run (h : t.Valid) {e : Edit Rat} (he : e.NamesWithText) (hr : e.run t ids = .ok (u, rest)) :
    u.Valid := by
  cases e with
  | setProjectName name =>
    cases hr
    exact { h with name := he }
  | setAspectRatio ratio =>
    have hr := Report.orRefuse_eq_ok.1 (eq_ok_of_map_pair hr)
    unfold Timeline.setAspectRatio at hr
    obtain ⟨v, hv, rfl⟩ := Report.map_eq_valid.1 hr
    exact { valid_of_read hv with }
  | addTrack kind name given =>
    obtain ⟨track, hblank, he⟩ := t.addTrack_cases kind name given ids
    rw [Edit.run, he] at hr
    cases hr
    exact h.append hblank
  | removeTrack trackId =>
    cases hr
    exact h.removeTrack trackId
  | toggleTrackMute trackId =>
    cases hr
    exact h.retuned (t.toggleTrackMute_cases trackId)
  | toggleTrackLock trackId =>
    cases hr
    exact h.retuned (t.toggleTrackLock_cases trackId)
  | setTrackGain trackId gain =>
    cases hr
    exact h.retuned (t.setTrackGain_cases trackId gain)
  | addClip trackId asset start given =>
    exact h.addClip (Except.ok.inj hr)
  | removeClip clipId =>
    cases hr
    exact h.removeClip clipId
  | updateClip | trimClip | setClipAudioMuted =>
    exact h.exchanged (updateClip_cases (eq_ok_of_map_pair hr))
  | resizeClip clipId edge time =>
    exact h.exchanged (resizeClip_cases (eq_ok_of_map_pair hr))
  | moveClip clipId trackId start =>
    cases hr
    exact h.moveClip clipId trackId start
  | splitClip clipId time given =>
    exact h.splitClip (Except.ok.inj hr)
  | detachAudio videoId given =>
    exact h.detachAudio hr
  | linkAudio videoId audioId =>
    cases hr
    exact h.linkAudio videoId audioId
  | unlinkAudio clipId =>
    cases hr
    exact h.unlinkAudio clipId
  | repairLinks =>
    cases hr
    exact h.repairLinks
  | addOverlay text trackId start overlayId style =>
    exact h.addOverlay hr
  | updateOverlay overlayId changes =>
    exact h.updateOverlay (eq_ok_of_map_pair hr)
  | removeOverlay overlayId =>
    cases hr
    exact h.withOverlays fun o ho => h.overlays o (List.mem_of_mem_filter ho)
  | moveOverlay overlayId trackId =>
    cases hr
    exact h.moveOverlay overlayId trackId
  | setTransition clipId kind duration side =>
    have hu : (t.setTransition clipId kind duration side ids).1 = u :=
      congrArg Prod.fst (Except.ok.inj hr)
    exact hu ▸ h.setTransition kind duration side ids
  | removeTransition clipId side =>
    cases hr
    exact { h with transitions := fun x hx => h.transitions x (List.mem_of_mem_filter hx) }
  | setLook clipId params =>
    exact h.setLook (eq_ok_of_map_pair hr)
  | resetLook clipId =>
    cases hr
    exact { h with looks := fun l hl => h.looks l (List.mem_of_mem_filter hl) }

end Valid

end Timeline

end Montage
