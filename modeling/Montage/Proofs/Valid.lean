/-
Records within their bounds.

Whatever is read is within the bounds of its kind (`Clip.valid_of_read`), and
what is within them is read back unchanged from its own fields
(`Clip.read_fields`, `Track.read_fields`). So a timeline of valid tracks keeps
its tracks when it is checked as a whole (`Timeline.tracks_of_read`).
-/
import Montage.Proofs.Reading

namespace Montage

/-! ## Clamped numbers -/

/-- A number from `lo` to `hi`. -/
def Within (lo hi v : Rat) : Prop := lo ≤ v ∧ v ≤ hi

theorem clamp_within {lo hi : Rat} (h : lo ≤ hi) (v : Rat) :
    Within lo hi (Scalar.clamp v lo hi) := by
  simp only [Scalar.clamp, Scalar.larger_eq_max, Scalar.smaller_eq_min]
  exact ⟨le_max_left _ _, max_le h (min_le_left _ _)⟩

theorem clamp_of_within {lo hi v : Rat} (h : Within lo hi v) : Scalar.clamp v lo hi = v := by
  simp only [Scalar.clamp, Scalar.larger_eq_max, Scalar.smaller_eq_min]
  rw [min_eq_right h.2, max_eq_right h.1]

/-- A field that is read and then clamped. -/
theorem within_of_clamped {fs : Fields Rat} {name : String} {default lo hi v : Rat}
    (hd : Within lo hi default) (hle : lo ≤ hi)
    (h : fs.withDefault name default (fun j => (Read.number j).map fun x => Scalar.clamp x lo hi) =
      .valid v) : Within lo hi v := by
  unfold Fields.withDefault at h
  split at h
  · simp only [Report.under_eq_valid, Report.map_eq_valid] at h
    obtain ⟨x, -, rfl⟩ := h
    exact clamp_within hle x
  · cases h
    exact hd

/-! ## Crops and transforms -/

structure Crop.Valid (k : Crop Rat) : Prop where
  x : Within 0 100 k.x
  y : Within 0 100 k.y
  width : Within 0 100 k.width
  height : Within 0 100 k.height

structure Transform.Valid (k : Transform Rat) : Prop where
  scale : Within 0 200 k.scale
  rotation : Within (-360) 360 k.rotation

theorem Crop.valid_of_read {fs : Fields Rat} {k : Crop Rat} (h : Crop.read fs = .valid k) :
    k.Valid := by
  unfold Crop.read at h
  simp only [Report.seq_eq_valid, Report.functor_map_eq_valid] at h
  obtain ⟨_, _, ⟨_, _, ⟨_, _, ⟨_, _, ⟨_, hx, rfl⟩, hy, rfl⟩, hw, rfl⟩, hh, rfl⟩, -, rfl⟩ := h
  have bound {name : String} {default v : Rat} (hd : Within 0.0 100.0 default)
      (hv : fs.withDefault name default Crop.percent = .valid v) : Within 0 100 v := by
    have := within_of_clamped hd (by norm_num) hv
    norm_num at this
    exact this
  exact ⟨bound (by norm_num [Within]) hx, bound (by norm_num [Within]) hy,
    bound (by norm_num [Within]) hw, bound (by norm_num [Within]) hh⟩

theorem Crop.read_fields {k : Crop Rat} (h : k.Valid) : Crop.read k.fields = .valid k := by
  have percent {v : Rat} (hv : Within 0 100 v) : Crop.percent (.real v) = .valid v :=
    congrArg Report.valid (clamp_of_within (by norm_num; exact hv))
  unfold Crop.read
  simp only [Crop.fields, Fields.withDefault, Fields.get?_cons, String.reduceEq, if_true, if_false,
    percent h.x, percent h.y, percent h.width, percent h.height, Read.boolean_bool]
  rfl

theorem Transform.valid_of_read {fs : Fields Rat} {k : Transform Rat}
    (h : Transform.read fs = .valid k) : k.Valid := by
  unfold Transform.read at h
  simp only [Report.seq_eq_valid, Report.functor_map_eq_valid] at h
  obtain ⟨_, _, ⟨_, _, ⟨_, _, ⟨_, -, rfl⟩, -, rfl⟩, hs, rfl⟩, hr, rfl⟩ := h
  have hs := within_of_clamped (by norm_num [Within]) (by norm_num) hs
  have hr := within_of_clamped (by norm_num [Within]) (by norm_num) hr
  norm_num at hs hr
  exact ⟨hs, hr⟩

theorem Transform.read_fields {k : Transform Rat} (h : k.Valid) :
    Transform.read k.fields = .valid k := by
  have hs : Scalar.clamp k.scale 0.0 200.0 = k.scale := clamp_of_within (by norm_num; exact h.scale)
  have hr : Scalar.clamp k.rotation (-360.0) 360.0 = k.rotation :=
    clamp_of_within (by norm_num; exact h.rotation)
  unfold Transform.read
  simp only [Transform.fields, Fields.withDefault, Fields.get?_cons, String.reduceEq, if_true,
    if_false, Read.number_real, Report.map, hs, hr]
  rfl

/-- Every number stands for something. -/
theorem Transform.any_isUndefined (k : Option (Transform Rat)) : k.any isUndefined = false := by
  cases k <;> rfl

/-! ## Clips -/

theorem Clip.read_eq_valid {α : Type} [Scalar α] {fs : Fields α} {c : Clip α} :
    Clip.read fs = .valid c ↔
      fs.require "id" Label.read = .valid c.id ∧
      fs.require "media_id" Read.text = .valid c.mediaId ∧
      fs.require "track_id" Read.text = .valid c.trackId ∧
      fs.require "kind" Read.choice = .valid c.kind ∧
      fs.withDefault "name" "" Read.text = .valid c.name ∧
      fs.withDefault "start_time" 0.0 Read.nonnegative = .valid c.start ∧
      fs.require "raw_duration" Read.positive = .valid c.rawDuration ∧
      fs.withDefault "trim_in" 0.0 Read.nonnegative = .valid c.trimIn ∧
      fs.withDefault "trim_out" 0.0 Read.nonnegative = .valid c.trimOut ∧
      fs.withDefault "crop" none (Read.optional (Read.record Crop.read)) = .valid c.crop ∧
      fs.withDefault "transform" none (Read.optional (Read.record Transform.read)) =
        .valid c.transform ∧
      fs.withDefault "audio_muted" false Read.boolean = .valid c.audioMuted ∧
      fs.withDefault "detached_audio_clip_id" none (Read.optional Label.read) =
        .valid c.detachedAudio ∧
      fs.withDefault "linked_video_clip_id" none (Read.optional Label.read) =
        .valid c.linkedVideo := by
  unfold Clip.read
  constructor
  · simp only [Report.seq_eq_valid, Report.functor_map_eq_valid]
    rintro ⟨_, _, ⟨_, _, ⟨_, _, ⟨_, _, ⟨_, _, ⟨_, _, ⟨_, _, ⟨_, _, ⟨_, _, ⟨_, _, ⟨_, _, ⟨_, _, ⟨_, _,
      ⟨_, h₁, rfl⟩, h₂, rfl⟩, h₃, rfl⟩, h₄, rfl⟩, h₅, rfl⟩, h₆, rfl⟩, h₇, rfl⟩, h₈, rfl⟩, h₉, rfl⟩,
      h₁₀, rfl⟩, h₁₁, rfl⟩, h₁₂, rfl⟩, h₁₃, rfl⟩, h₁₄, rfl⟩
    exact ⟨h₁, h₂, h₃, h₄, h₅, h₆, h₇, h₈, h₉, h₁₀, h₁₁, h₁₂, h₁₃, h₁₄⟩
  · rintro ⟨h₁, h₂, h₃, h₄, h₅, h₆, h₇, h₈, h₉, h₁₀, h₁₁, h₁₂, h₁₃, h₁₄⟩
    rw [h₁, h₂, h₃, h₄, h₅, h₆, h₇, h₈, h₉, h₁₀, h₁₁, h₁₂, h₁₃, h₁₄]
    rfl

/-- A clip within the bounds of its fields. -/
structure Clip.Valid (c : Clip Rat) : Prop where
  start : 0 ≤ c.start
  rawDuration : 0 < c.rawDuration
  trimIn : 0 ≤ c.trimIn
  trimOut : 0 ≤ c.trimOut
  crop : ∀ k ∈ c.crop, k.Valid
  transform : ∀ k ∈ c.transform, k.Valid

theorem nonneg_of_read {fs : Fields Rat} {name : String} {x : Rat}
    (h : fs.withDefault name 0.0 Read.nonnegative = .valid x) : 0 ≤ x := by
  unfold Fields.withDefault at h
  split at h
  · exact (Read.nonnegative_eq_valid.1 (Report.under_eq_valid.1 h)).2
  · cases h
    norm_num

/-- What holds of every record that is read holds of one that may be null. -/
theorem forall_mem_of_read_optional {β : Type} {P : β → Prop} {read : Fields Rat → Report β}
    (hread : ∀ gs b, read gs = .valid b → P b) {fs : Fields Rat} {name : String} {o : Option β}
    (h : fs.withDefault name none (Read.optional (Read.record read)) = .valid o) : ∀ b ∈ o, P b := by
  unfold Fields.withDefault at h
  split at h
  · next j _ =>
    rw [Report.under_eq_valid] at h
    cases j <;> simp [Read.optional, Read.record] at h
    · subst h; simp
    · obtain ⟨b, hb, rfl⟩ := h
      simpa using hread _ b hb
  · cases h
    simp

theorem Clip.valid_of_read {fs : Fields Rat} {c : Clip Rat} (h : Clip.read fs = .valid c) :
    c.Valid := by
  obtain ⟨-, -, -, -, -, hs, hraw, hin, hout, hcrop, htransform, -⟩ := Clip.read_eq_valid.1 h
  obtain ⟨_, -, hraw⟩ := Fields.require_eq_valid.1 hraw
  exact ⟨nonneg_of_read hs, (Read.positive_eq_valid.1 hraw).2, nonneg_of_read hin, nonneg_of_read hout,
    forall_mem_of_read_optional (fun _ _ => Crop.valid_of_read) hcrop,
    forall_mem_of_read_optional (fun _ _ => Transform.valid_of_read) htransform⟩

theorem Clip.read_fields {c : Clip Rat} (h : c.Valid) : Clip.read c.fields = .valid c := by
  have hcrop : c.fields.withDefault "crop" none (Read.optional (Read.record Crop.read)) =
      .valid c.crop := by
    cases hc : c.crop with
    | none => simp [Clip.fields, Fields.withDefault, hc, Read.optional]
    | some k =>
      simp [Clip.fields, Fields.withDefault, hc, Read.optional, Read.record, Report.map,
        Crop.read_fields (h.crop k hc)]
  have htransform : c.fields.withDefault "transform" none
      (Read.optional (Read.record Transform.read)) = .valid c.transform := by
    cases hc : c.transform with
    | none => simp [Clip.fields, Fields.withDefault, hc, Read.optional]
    | some k =>
      simp [Clip.fields, Fields.withDefault, hc, Read.optional, Read.record, Report.map,
        Transform.read_fields (h.transform k hc)]
  rw [Clip.read_eq_valid]
  simp only [hcrop, htransform, true_and]
  simp [Clip.fields, Fields.require, Fields.withDefault, Read.nonnegative_eq_valid,
    Read.positive_eq_valid, h.start, h.rawDuration, h.trimIn, h.trimOut]

/-! ## Transitions -/

/-- A transition within the bounds of its fields. -/
structure Transition.Valid {ι : Type} (x : Transition Rat ι) : Prop where
  duration : minTransitionDuration ≤ x.duration

theorem Transition.Valid.duration_pos {ι : Type} {x : Transition Rat ι} (h : x.Valid) :
    0 < x.duration := by
  have := h.duration
  rw [minTransitionDuration_eq] at this
  linarith

theorem Transition.valid_of_read {ι : Type} [Label ι Rat] {fs : Fields Rat}
    {x : Transition Rat ι} (h : Transition.read fs = .valid x) : x.Valid := by
  unfold Transition.read at h
  simp only [Report.seq_eq_valid, Report.functor_map_eq_valid] at h
  obtain ⟨_, _, ⟨_, _, ⟨_, _, ⟨_, _, ⟨_, -, rfl⟩, -, rfl⟩, -, rfl⟩, hd, rfl⟩, -, rfl⟩ := h
  refine ⟨?_⟩
  unfold Fields.withDefault at hd
  split at hd
  · simp only [Transition.length, Report.under_eq_valid, Report.map_eq_valid,
      Scalar.larger_eq_max] at hd
    obtain ⟨v, -, rfl⟩ := hd
    exact le_max_left minTransitionDuration v
  · cases hd
    norm_num [minTransitionDuration]

/-! ## Tracks -/

/-- A track within the bounds of its fields, and so its clips. -/
structure Track.Valid (track : Track Rat) : Prop where
  clips : ∀ c ∈ track.clips, c.Valid
  gain : Within 0 1 track.gain

/-- Lists whose items agree in pairs look the same to what they agree in. -/
theorem map_eq_of_forall₂ {β γ : Type} {f : β → γ} {bs cs : List β}
    (h : List.Forall₂ (fun b c => f b = f c) bs cs) : bs.map f = cs.map f := by
  rw [← List.forall₂_eq_eq_eq, List.forall₂_map_left_iff, List.forall₂_map_right_iff]
  exact h

/-- A list of records is read one by one. -/
theorem read_list_eq_valid {α β γ : Type} [Scalar α] {read : Fields α → Report γ}
    {fields : β → Fields α} {fault : Fault} {bs : List β} {cs : List γ} :
    Read.list fault (Read.record read) (.list (bs.map fun b => .object (fields b))) = .valid cs ↔
      List.Forall₂ (fun b c => read (fields b) = .valid c) bs cs := by
  show Report.items _ _ _ = _ ↔ _
  rw [Report.items_eq_valid, List.forall₂_map_left_iff]
  rfl

theorem Track.read_fields {track : Track Rat} (h : track.Valid) :
    Track.read track.fields = .valid track := by
  have hclips : Read.list .notTuple (Read.record Clip.read)
      (.list (track.clips.map fun c => .object c.fields)) = .valid track.clips :=
    read_list_eq_valid.2 (List.forall₂_same.2 fun c hc => Clip.read_fields (h.clips c hc))
  have hgain : Scalar.clamp track.gain 0.0 1.0 = track.gain :=
    clamp_of_within (by norm_num; exact h.gain)
  unfold Track.read
  simp only [Track.fields, Fields.require, Fields.withDefault, Fields.get?_cons, String.reduceEq,
    if_true, if_false, Read.text_text, Read.choice_trackKind, hclips, Read.boolean_bool,
    Read.number_real, Report.map, hgain]
  rfl

/-! ## Timelines -/

/-- The tracks of a timeline that is read back with another shape. -/
theorem Timeline.read_tracks {α : Type} [Scalar α] {t u : Timeline α} {ratio : Json α}
    (hr : Timeline.read (t.fields.put "aspect_ratio" ratio) = .valid u) :
    List.Forall₂ (fun x y => Track.read x.fields = .valid y) t.tracks u.tracks := by
  unfold Timeline.read at hr
  simp only [Report.seq_eq_valid, Report.functor_map_eq_valid] at hr
  obtain ⟨_, _, ⟨_, _, ⟨_, _, ⟨_, tracks, ⟨_, _, ⟨_, -, rfl⟩, -, rfl⟩, hread, rfl⟩, -, rfl⟩,
    -, rfl⟩, -, rfl⟩ := hr
  have hget : (t.fields.put "aspect_ratio" ratio).get? "tracks" =
      some (.list (t.tracks.map fun track => .object track.fields)) := by
    simp [Timeline.fields]
  exact read_list_eq_valid.1 ((Fields.withDefault_of_get? hget).1 hread)

theorem Timeline.tracks_of_read {t u : Timeline Rat} {ratio : Json Rat}
    (h : ∀ track ∈ t.tracks, track.Valid)
    (hr : Timeline.read (t.fields.put "aspect_ratio" ratio) = .valid u) : u.tracks = t.tracks := by
  have hboth : List.Forall₂ (fun x y => x.Valid ∧ Track.read x.fields = .valid y) t.tracks u.tracks :=
    (List.forall₂_and_left _ _).2 ⟨h, Timeline.read_tracks hr⟩
  have hsame : List.Forall₂ (· = ·) t.tracks u.tracks := hboth.imp fun x y hxy => by
    rw [Track.read_fields hxy.1] at hxy
    exact Report.valid.inj hxy.2
  rw [List.forall₂_eq_eq_eq] at hsame
  exact hsame.symm

end Montage
