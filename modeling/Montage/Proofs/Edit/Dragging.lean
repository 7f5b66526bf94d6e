/-
What dragging an end of a clip does, in exact arithmetic.

To drag an end is never refused: the clip is exchanged for one that starts or ends elsewhere, and
its track is settled (`Reachable.apply_resizeStart`, `Reachable.apply_resizeFinish`).

The end goes where it is dragged to, as far as the media of the clip does. The clips before stay,
and those behind are moved to the right if the end reaches into them
(`Reachable.resizeFinish_ripples`).

The start takes the trim along. If no other clip is where it is dragged to (`Track.FreeFor`), the
clip ends where it did and shows at every instant what it did. If one is, the clip is pushed on
behind it, but not the trim: it ends later and shows its media later, and the same again each time
that it is dragged there, for as long as there is more of its media
(`Reachable.resizeStart_keeps_iff`).
-/
import Montage.Proofs.Edit.Cutting
import Montage.Proofs.Resolving

namespace Montage

/-! ## Clips with an end dragged -/

namespace Clip

/-- Where a clip is asked to start whose start is dragged to a time: not before its media does, and
not so late that less than the least length is left of it. -/
def draggedStart (c : Clip Rat) (time : Rat) : Rat :=
  max (max 0 (c.start - c.trimIn)) (min time (c.finish - minClipDuration))

/-- The clip with its start dragged to one place, the trim taken along, and then pushed on to another. -/
def slid (c : Clip Rat) (start place : Rat) : Clip Rat :=
  { c with start := place, trimIn := c.trimIn + (start - c.start) }

/-- A clip whose end is dragged to a time, as far as its media goes. -/
def reaching (c : Clip Rat) (time : Rat) : Clip Rat :=
  let media := c.rawDuration - c.trimIn
  { c with trimOut := media - min (max (c.start + minClipDuration) time - c.start) media }

/-- The clip with its end dragged to a time. -/
def extended (c : Clip Rat) (time : Rat) : Clip Rat :=
  if c.kind = .image then c.stretched time else c.reaching time

variable {c d : Clip Rat} {id : String} {kind : TrackKind} {start time : Rat}

@[simp] theorem slid_start (c : Clip Rat) (start place : Rat) : (c.slid start place).start = place := rfl

@[simp] theorem slid_trimIn (c : Clip Rat) (start place : Rat) :
    (c.slid start place).trimIn = c.trimIn + (start - c.start) := rfl

theorem slid_finish (c : Clip Rat) (start place : Rat) :
    (c.slid start place).finish = c.finish + (place - start) := by
  simp only [slid, finish, visibleDuration]
  ring

theorem slid_self (c : Clip Rat) : c.slid c.start c.start = c := by
  simp [slid]

theorem extended_eq (c : Clip Rat) (time : Rat) : c.extended time =
    { c with rawDuration := (c.extended time).rawDuration, trimOut := (c.extended time).trimOut } := by
  unfold extended
  split <;> rfl

/-- The end of an image goes to the time it is dragged to, and that of another clip as far as its
media does; both leave the least length. -/
theorem extended_finish (c : Clip Rat) (time : Rat) : (c.extended time).finish =
    if c.kind = .image then max (c.start + minClipDuration) time
    else min (max (c.start + minClipDuration) time) (c.start + c.rawDuration - c.trimIn) := by
  unfold extended
  split
  · simp only [stretched, finish, visibleDuration, Scalar.larger_eq_max, Scalar.zero_eq]
    ring
  · have hmin := min_sub_sub_right (max (c.start + minClipDuration) time)
      (c.start + c.rawDuration - c.trimIn) c.start
    have hmedia : c.start + c.rawDuration - c.trimIn - c.start = c.rawDuration - c.trimIn := by ring
    rw [hmedia] at hmin
    simp only [reaching, finish, visibleDuration, hmin]
    ring

theorem shows?_eq_some {instant seen : Rat} : c.shows? instant = some seen ↔
    c.start ≤ instant ∧ instant < c.finish ∧ c.trimIn + (instant - c.start) = seen := by
  simp [shows?, and_assoc]

namespace Fits

/-- A clip starts where it leaves more than the least length. -/
theorem start_le_last (h : c.Fits id kind) : c.start ≤ c.finish - minClipDuration := by
  have hvisible := h.visible
  rw [finish]
  linarith

theorem draggedStart_mem (h : c.Fits id kind) (time : Rat) :
    0 ≤ c.draggedStart time ∧ c.start - c.trimIn ≤ c.draggedStart time ∧
      c.draggedStart time ≤ c.finish - minClipDuration := by
  have hfirst : max 0 (c.start - c.trimIn) ≤ c.start := max_le h.start (by linarith [h.trimIn])
  obtain ⟨hzero, hmedia⟩ := max_le_iff.1
    (le_max_left (max 0 (c.start - c.trimIn)) (min time (c.finish - minClipDuration)))
  exact ⟨hzero, hmedia, max_le (hfirst.trans h.start_le_last) (min_le_right _ _)⟩

/-- A clip that is pushed on from where its start is dragged to shows its media later, and at some
instant it is seen both before and after. -/
theorem shows_slid_iff (h : c.Fits id kind) {place : Rat} (hle : start ≤ place)
    (hseen : place < c.finish) :
    (∀ instant before after, c.shows? instant = some before →
      (c.slid start place).shows? instant = some after → after = before) ↔ place = start := by
  simp only [shows?_eq_some, slid_finish, slid_start, slid_trimIn]
  constructor
  · intro hsame
    have hlast := h.start_le_last
    rw [minClipDuration_eq] at hlast
    have hmax : max c.start place < c.finish := max_lt (by linarith) hseen
    have heq := hsame (max c.start place) _ _ ⟨le_max_left _ _, hmax, rfl⟩
      ⟨le_max_right _ _, by linarith, rfl⟩
    linarith
  · rintro rfl instant before after ⟨-, -, rfl⟩ ⟨-, -, rfl⟩
    ring

/-- A clip whose start is dragged once more is not asked to start elsewhere, unless it was pushed on
and there is more of its media before it. -/
theorem draggedStart_slid_iff (h : c.Fits id kind) {place : Rat}
    (hplace : place = c.draggedStart time ∨
      c.draggedStart time < place ∧ c.draggedStart time < c.start) :
    (c.slid (c.draggedStart time) place).draggedStart time = place ↔
      place = c.draggedStart time ∨ (c.slid (c.draggedStart time) place).trimIn = 0 := by
  rcases hplace with rfl | ⟨hpushed, hearly⟩
  · refine iff_of_true ?_ (.inl rfl)
    have hmedia : c.draggedStart time - (c.trimIn + (c.draggedStart time - c.start)) =
        c.start - c.trimIn := by ring
    rw [draggedStart, slid_finish, slid_start, slid_trimIn, hmedia, sub_self, add_zero]
    rfl
  obtain ⟨hzero, hmedia, -⟩ := h.draggedStart_mem time
  have hlast := h.start_le_last
  have htime : time ≤ c.draggedStart time := by
    have hmin := le_max_right (max 0 (c.start - c.trimIn)) (min time (c.finish - minClipDuration))
    exact (min_le_iff.1 hmin).resolve_right fun hle => by
      have hle : c.finish - minClipDuration ≤ c.draggedStart time := hle
      linarith
  -- It was dragged to the left, so that the time is before the place it was pushed to.
  have hleft : 0 ≤ c.trimIn + (c.draggedStart time - c.start) := by linarith
  rw [draggedStart, slid_finish, slid_start, slid_trimIn, min_eq_left (by linarith)]
  generalize c.trimIn + (c.draggedStart time - c.start) = left at hleft ⊢
  constructor
  · intro he
    have hfirst : max 0 (place - left) = place := by
      rcases max_choice (max 0 (place - left)) time with hmax | hmax <;> rw [hmax] at he <;> linarith
    rcases max_choice 0 (place - left) with hmax | hmax <;> rw [hmax] at hfirst
    · linarith
    · exact .inr (by linarith)
  · rintro (he | rfl)
    · linarith
    · have hpos : 0 ≤ place := by linarith
      rw [sub_zero, max_eq_right hpos, max_eq_left (by linarith)]

theorem slid (h : c.Fits id kind) (time : Rat) :
    (c.slid (c.draggedStart time) (c.draggedStart time)).Fits id kind := by
  obtain ⟨hzero, hmedia, hlast⟩ := h.draggedStart_mem time
  rw [finish, visibleDuration] at hlast
  exact h.recut rfl rfl rfl rfl hzero h.rawDuration
    ⟨by simp only [Clip.slid]; linarith, h.trimOut, by simp only [Clip.slid]; linarith⟩

theorem reaching (h : c.Fits id kind) (time : Rat) : (c.reaching time).Fits id kind := by
  have hleast := le_max_left (c.start + minClipDuration) time
  have hvisible := h.visible
  have hout := h.trimOut
  rw [visibleDuration] at hvisible
  have hmin : minClipDuration ≤ min (max (c.start + minClipDuration) time - c.start)
      (c.rawDuration - c.trimIn) := le_min (by linarith) (by linarith)
  have hmedia := min_le_right (max (c.start + minClipDuration) time - c.start)
    (c.rawDuration - c.trimIn)
  exact h.recut rfl rfl rfl rfl h.start h.rawDuration ⟨h.trimIn, by simp only [Clip.reaching]; linarith,
    by simp only [Clip.reaching]; linarith⟩

end Fits

end Clip

/-! ## Timelines with an end of a clip dragged -/

namespace Timeline

variable {t : Timeline Rat} {track : Track Rat} {clip : Clip Rat}

/-- The timeline with a clip of an unlocked track exchanged for what is made of it, and the track
settled anew. -/
def exchange (t : Timeline Rat) (clipId : String) (f : Clip Rat → Clip Rat) : Timeline Rat :=
  match t.editable? clipId with
  | none => t
  | some (track, clip) => t.replaceTrack (track.settle (replaceClip track.clips (f clip)))

/-- The timeline with the start of a clip dragged. -/
def slideClip (t : Timeline Rat) (clipId : String) (time : Rat) : Timeline Rat :=
  t.exchange clipId fun c => c.slid (c.draggedStart time) (c.draggedStart time)

/-- The timeline with the end of a clip dragged. -/
def extendClip (t : Timeline Rat) (clipId : String) (time : Rat) : Timeline Rat :=
  t.exchange clipId fun c => c.extended time

/-- To drag the start of a clip is never refused. -/
theorem Sound.resizeStart_eq (h : t.Sound) (clipId : String) (time : Rat) :
    t.resizeClip clipId .start time = .ok (t.slideClip clipId time) := by
  cases hclip : t.editable? clipId with
  | none => simp only [Timeline.resizeClip, slideClip, exchange, hclip]
  | some found =>
    obtain ⟨track, clip⟩ := found
    obtain ⟨ht, -, hc, -⟩ := editable?_eq_some hclip
    have hfits := (h track ht).clips clip hc
    have hslid := hfits.slid time
    have hchange := clip.change_start hfits.toValid hslid.start hslid.trimsFit
    simp only [Clip.slid, Clip.draggedStart] at hchange
    simp only [Timeline.resizeClip, Timeline.updateClip, slideClip, exchange, hclip,
      Scalar.larger_eq_max, Scalar.smaller_eq_min, Scalar.zero_eq, hchange]
    rfl

/-- To drag the end of a clip is never refused. -/
theorem Sound.resizeFinish_eq (h : t.Sound) (clipId : String) (time : Rat) :
    t.resizeClip clipId .finish time = .ok (t.extendClip clipId time) := by
  cases hclip : t.editable? clipId with
  | none => simp only [Timeline.resizeClip, extendClip, exchange, hclip]
  | some found =>
    obtain ⟨track, clip⟩ := found
    obtain ⟨ht, -, hc, -⟩ := editable?_eq_some hclip
    have hfits := (h track ht).clips clip hc
    simp only [Timeline.resizeClip, extendClip, exchange, hclip, Clip.extended]
    split
    · rfl
    · have hchange := clip.change_trimOut hfits.toValid (hfits.reaching time).trimsFit
      simp only [Clip.reaching] at hchange
      simp only [Timeline.updateClip, hclip, Scalar.larger_eq_max, Scalar.smaller_eq_min, hchange]
      rfl

theorem Reachable.apply_resizeStart (h : t.Reachable) (clipId : String) (time : Rat) (ids : Ids) :
    (Edit.resizeClip clipId .start time).apply t ids = .ok (t.slideClip clipId time, ids) := by
  rw [Edit.apply_eq_run, Edit.run, h.sound.resizeStart_eq]
  rfl

theorem Reachable.slideClip (h : t.Reachable) (clipId : String) (time : Rat) :
    (t.slideClip clipId time).Reachable :=
  h.step (.resizeClip clipId .start time) trivial (fun _ hle hlt => absurd hlt (not_lt.2 hle))
    (h.apply_resizeStart clipId time .start)

theorem Reachable.apply_resizeFinish (h : t.Reachable) (clipId : String) (time : Rat) (ids : Ids) :
    (Edit.resizeClip clipId .finish time).apply t ids = .ok (t.extendClip clipId time, ids) := by
  rw [Edit.apply_eq_run, Edit.run, h.sound.resizeFinish_eq]
  rfl

/-- A clip that can be edited is exchanged on its track. -/
theorem Sound.exchange_eq (h : t.Sound) (hl : t.Linked) (ht : track ∈ t.tracks)
    (hopen : track.locked = false) (hc : clip ∈ track.clips) (f : Clip Rat → Clip Rat) :
    t.exchange clip.id f = t.replaceTrack (track.settle (replaceClip track.clips (f clip))) := by
  simp only [Timeline.exchange, h.editable?_eq hl ht hopen hc]

end Timeline

/-! ## A clip exchanged for one that starts elsewhere -/

/-- No clip but one of a track is there at a place, for longer than the tolerance. -/
def Track.FreeFor (track : Track Rat) (id : String) (place : Rat) : Prop :=
  ∀ c ∈ track.clips, c.id ≠ id → c.start ≤ place → c.finish - overlapTolerance ≤ place

instance (track : Track Rat) (id : String) (place : Rat) : Decidable (track.FreeFor id place) :=
  inferInstanceAs (Decidable (∀ c ∈ track.clips, _))

variable {track : Track Rat} {clip new : Clip Rat}

/-- The clips of a sound track before and behind one of them. -/
theorem Track.Sound.exists_around (hs : track.Sound) (hn : (track.clips.map (·.id)).Nodup)
    (hc : clip ∈ track.clips) :
    ∃ pre post, track.clips = pre ++ clip :: post ∧ (∀ c ∈ pre ++ post, c.id ≠ clip.id) ∧
      Spaced (pre ++ post) ∧ (∀ c ∈ pre, Follows c clip) ∧ ∀ c ∈ post, Follows clip c := by
  obtain ⟨pre, post, hsplit, hne⟩ := exists_split_of_mem hn hc
  have hspaced := hs.spaced
  rw [hsplit] at hspaced
  obtain ⟨hpre, hpost, hcross⟩ := List.pairwise_append.1 hspaced
  obtain ⟨hnext, hpost⟩ := List.pairwise_cons.1 hpost
  have hothers : Spaced (pre ++ post) := List.pairwise_append.2
    ⟨hpre, hpost, fun a ha b hb => hcross a ha b (List.mem_cons_of_mem _ hb)⟩
  exact ⟨pre, post, hsplit, hne, hothers, fun c hmem => hcross c hmem clip (by simp), hnext⟩

/-- A clip of a track is exchanged for one that starts no later than the least length before its end.
That one starts where it asks to just when the place is free for it, and otherwise at the end of a
clip that it reaches into. -/
theorem Track.Sound.settle_exchange (hs : track.Sound) (hn : (track.clips.map (·.id)).Nodup)
    (hc : clip ∈ track.clips) (hid : new.id = clip.id) (hnew : 0 ≤ new.start)
    (hlast : new.start ≤ clip.finish - minClipDuration) :
    ∃ pre post x, track.clips = pre ++ clip :: post ∧ (∀ c ∈ pre, Follows c clip) ∧
      (∀ c ∈ post, Follows clip c) ∧ Spaced (pre ++ post) ∧
      track.settle (Montage.replaceClip track.clips new) = { track with clips :=
        ((pre.filter fun c => decide (c.start ≤ new.start)) ++ { new with start := x } ::
          pushRight (x + new.visibleDuration)
            ((pre.filter fun c => decide (new.start < c.start)) ++ post)) } ∧
      (x = new.start ∧ track.FreeFor clip.id new.start ∨
        new.start < x - overlapTolerance ∧ x - overlapTolerance ≤ clip.start ∧
          ¬ track.FreeFor clip.id new.start) := by
  obtain ⟨pre, post, hsplit, hne, hothers, hbefore, hbehind⟩ := hs.exists_around hn hc
  have hlate : ∀ c ∈ post, new.start < c.start := fun c hmem => by
    have hend : clip.finish - overlapTolerance ≤ c.start := (hbehind c hmem).2
    rw [minClipDuration_eq] at hlast
    rw [overlapTolerance_eq] at hend
    linarith
  have hstart : ∀ c ∈ pre, 0 ≤ c.start := fun c hmem =>
    (hs.clips c (by simp [hsplit, hmem])).start
  have hclips : Montage.replaceClip track.clips new = pre ++ new :: post := by
    rw [hsplit]
    exact replaceClip_of_split hne hid
  obtain ⟨x, hx, hor⟩ := resolve_insert hothers hstart hnew hlate
  refine ⟨pre, post, x, hsplit, hbefore, hbehind, hothers, ?_, ?_⟩
  · rw [hclips, Track.settle, hx]
    rfl
  rcases hor with ⟨he, hends⟩ | ⟨hlt, a, ha, hle, he⟩
  · refine .inl ⟨he, fun c hmem hother hle => ?_⟩
    rw [hsplit, List.mem_append, List.mem_cons] at hmem
    rcases hmem with hmem | rfl | hmem
    · exact hends c hmem hle
    · exact absurd rfl hother
    · exact absurd (hlate c hmem) (not_lt.2 hle)
  · have hmem : a ∈ track.clips := by simp [hsplit, ha]
    have hend : x = a.finish := he
    refine .inr ⟨hlt, hend ▸ (hbefore a ha).2, fun hfree => ?_⟩
    exact absurd (hfree a hmem (hne a (by simp [ha])) hle) (not_le.2 (hend ▸ hlt))

/-- A clip of a track is exchanged for one that starts where it does. That one stays, as do the clips
before, and those behind are pushed to the right of its end. -/
theorem Track.Sound.settle_exchange_end (hs : track.Sound) (hn : (track.clips.map (·.id)).Nodup)
    (hc : clip ∈ track.clips) (hid : new.id = clip.id) (hstart : new.start = clip.start) :
    ∃ pre post, track.clips = pre ++ clip :: post ∧ (∀ c ∈ pre, c.start < clip.start) ∧
      (∀ c ∈ post, clip.start < c.start) ∧ Spaced post ∧
      track.settle (Montage.replaceClip track.clips new) =
        { track with clips := (pre ++ new :: pushRight new.finish post) } := by
  have hfits := hs.clips clip hc
  obtain ⟨pre, post, x, hsplit, hbefore, hbehind, hothers, hsettled, hx⟩ := hs.settle_exchange hn hc
    hid (hstart ▸ hfits.start) (hstart ▸ hfits.start_le_last)
  have hearly : ∀ c ∈ pre, c.start < clip.start := fun c hmem =>
    (hbefore c hmem).start_lt (hs.clips c (by simp [hsplit, hmem])).visible
  have hlate : ∀ c ∈ post, clip.start < c.start := fun c hmem =>
    (hbehind c hmem).start_lt hfits.visible
  have hplace : x = new.start := by
    rcases hx with ⟨hx, -⟩ | ⟨hlt, hle, -⟩
    · exact hx
    · exact absurd (hstart ▸ hlt) (not_lt.2 hle)
  have hstay : pre.filter (fun c => decide (c.start ≤ new.start)) = pre :=
    List.filter_eq_self.2 fun c hmem => by simpa [hstart] using (hearly c hmem).le
  have hnone : pre.filter (fun c => decide (new.start < c.start)) = [] :=
    List.filter_eq_nil_iff.2 fun c hmem => by simpa [hstart] using (hearly c hmem).le
  rw [hstay, hnone, hplace, List.nil_append] at hsettled
  exact ⟨pre, post, hsplit, hearly, hlate, hothers.sublist (List.sublist_append_right ..), hsettled⟩

namespace Timeline

variable {t : Timeline Rat}

/-! ## The end of a clip -/

/-- **The end of a clip dragged.** A clip of a timeline that is reached, on an unlocked track, keeps
its start and the trim there, and ends where its end is dragged to, the least length behind its
start or later; if it is no image, as far as its media goes. The clips of the track that start
earlier stay. Those that start later keep their order and all but their start, and are moved to
the right only if the first of them starts before the end of the clip, less the tolerance. -/
theorem Reachable.resizeFinish_ripples (h : t.Reachable) (ht : track ∈ t.tracks)
    (hopen : track.locked = false) (hc : clip ∈ track.clips) (time : Rat) (ids : Ids) :
    ∃ d pre post later,
      (Edit.resizeClip clip.id .finish time).apply t ids =
        .ok (t.replaceTrack { track with clips := (pre ++ d :: later) }, ids) ∧
      d = { clip with rawDuration := d.rawDuration, trimOut := d.trimOut } ∧
      (clip.kind ≠ .image → d.rawDuration = clip.rawDuration) ∧
      d.finish = (if clip.kind = .image then max (clip.start + minClipDuration) time
        else min (max (clip.start + minClipDuration) time)
          (clip.start + clip.rawDuration - clip.trimIn)) ∧
      track.clips = pre ++ clip :: post ∧ (∀ c ∈ pre, c.start < clip.start) ∧
      (∀ c ∈ post, clip.start < c.start) ∧ List.Forall₂ MovedRight post later ∧
      (later = post ↔ ∀ next ∈ post.head?, d.finish - overlapTolerance ≤ next.start) := by
  have hsame := clip.extended_eq time
  have hstart : (clip.extended time).start = clip.start := by rw [hsame]
  have hid : (clip.extended time).id = clip.id := by rw [hsame]
  obtain ⟨pre, post, hsplit, hearly, hlate, hspaced, hsettled⟩ :=
    (h.sound track ht).settle_exchange_end (nodup_clipIds h.linked.clipIds ht) hc hid hstart
  refine ⟨clip.extended time, pre, post, pushRight (clip.extended time).finish post, ?_, hsame,
    fun hkind => by simp [Clip.extended, hkind, Clip.reaching], clip.extended_finish time, hsplit,
    hearly, hlate, movedRight_pushRight _ _, fun he => ?_, fun hclear => ?_⟩
  · rw [h.apply_resizeFinish, extendClip, h.sound.exchange_eq h.linked ht hopen hc, hsettled]
  · have hhead := (isChain_pushRight (clip.extended time).finish post).1
    rwa [he] at hhead
  · exact pushRight_of_isChain hclear (hspaced.imp fun hab => hab.2).isChain

/-- Where clips are seen, and the time of their media that they show at second 7. -/
def clipTable (t : Timeline Rat) : List (String × Rat × Rat × Option Rat) :=
  t.allClips.map fun c => (c.id, c.start, c.finish, c.shows? 7)

/-- The rough cut with a picture behind its first clip. -/
def photoCut : Timeline Rat := roughCut.after (.addClip "v" (take .image) 0 (some "d"))

theorem photoCut_reachable : photoCut.Reachable :=
  roughCut_reachable.after (.addClip "v" (take .image) 0 (some "d"))
    (by rintro _ ⟨⟩; exact not_mem_of_contains (by cbv)) (by cbv)

theorem photoCut_clipTable : photoCut.clipTable =
    [("a", 0, 4, none), ("d", 4, 8, some 3), ("b", 8, 12, none), ("c", 0, 4, none)] := by
  cbv

/-- The end of the picture dragged past the start of the clip behind it. -/
def longCut : Timeline Rat := photoCut.extendClip "d" 12

theorem longCut_clipTable : longCut.clipTable =
    [("a", 0, 4, none), ("d", 4, 12, some 3), ("b", 12, 16, none), ("c", 0, 4, none)] := by
  cbv

theorem longCut_ripples :
    (Edit.resizeClip "d" .finish 12).apply photoCut .start = .ok (longCut, .start) ∧
    photoCut.clipTable =
      [("a", 0, 4, none), ("d", 4, 8, some 3), ("b", 8, 12, none), ("c", 0, 4, none)] ∧
    longCut.clipTable =
      [("a", 0, 4, none), ("d", 4, 12, some 3), ("b", 12, 16, none), ("c", 0, 4, none)] ∧
    ∃ clip ∈ photoCut.allClips, ∃ d ∈ longCut.allClips, clip.id = "d" ∧
      d = { clip with rawDuration := d.rawDuration, trimOut := d.trimOut } ∧ d.finish = 12 := by
  have hr : (Edit.resizeClip "d" .finish 12).apply photoCut .start = .ok (longCut, .start) :=
    photoCut_reachable.apply_resizeFinish "d" 12 .start
  have hsome : (photoCut.editable? "d").isSome = true := by cbv
  obtain ⟨⟨track, clip⟩, hedit⟩ := Option.isSome_iff_exists.1 hsome
  obtain ⟨ht, hopen, hc, hid⟩ := editable?_eq_some hedit
  have hphoto : (photoCut.editable? "d").all (fun found =>
      decide (found.2.kind = .image) && decide (found.2.start = 4)) = true := by cbv
  rw [hedit, Option.all_some, Bool.and_eq_true, decide_eq_true_eq, decide_eq_true_eq] at hphoto
  obtain ⟨himage, hfour⟩ := hphoto
  obtain ⟨d, pre, post, later, hu, hsame, -, hfinish, -⟩ :=
    photoCut_reachable.resizeFinish_ripples ht hopen hc 12 .start
  rw [hid] at hu
  have hlong := (Prod.mk.inj (Except.ok.inj (hr.symm.trans hu))).1
  have hd : d ∈ longCut.allClips := by
    rw [hlong]
    exact mem_allClips_replaceTrack ht rfl (by simp)
  rw [if_pos himage, hfour, minClipDuration_eq] at hfinish
  exact ⟨hr, photoCut_clipTable, longCut_clipTable, clip, mem_allClips ht hc, d, hd, hid, hsame,
    hfinish.trans (by norm_num)⟩

/-! ## The start of a clip -/

/-- A clip whose start is dragged is pushed on from there, if the place is not free. -/
theorem Sound.exists_slid (h : t.Sound) (hl : t.Linked) (ht : track ∈ t.tracks)
    (hopen : track.locked = false) (hc : clip ∈ track.clips) (time : Rat) :
    ∃ clips x, t.slideClip clip.id time = t.replaceTrack { track with clips } ∧
      clip.slid (clip.draggedStart time) x ∈ clips ∧
      (x = clip.draggedStart time ∧ track.FreeFor clip.id (clip.draggedStart time) ∨
        clip.draggedStart time < x - overlapTolerance ∧ x - overlapTolerance ≤ clip.start ∧
          ¬ track.FreeFor clip.id (clip.draggedStart time)) := by
  have hs := h track ht
  have hfits := hs.clips clip hc
  obtain ⟨hzero, -, hlast⟩ := hfits.draggedStart_mem time
  let new := clip.slid (clip.draggedStart time) (clip.draggedStart time)
  have hid : new.id = clip.id := rfl
  obtain ⟨pre, post, x, -, -, -, -, hsettled, hx⟩ :=
    hs.settle_exchange (nodup_clipIds hl.clipIds ht) hc hid hzero hlast
  refine ⟨(track.settle (replaceClip track.clips new)).clips, x, ?_, ?_, hx⟩
  · exact h.exchange_eq hl ht hopen hc _
  · rw [hsettled]
    simp [new, Clip.slid]

/-- To drag the start of a clip changes nothing just when it is asked to start where it does. -/
theorem Sound.slideClip_eq_self_iff (h : t.Sound) (hl : t.Linked) (ht : track ∈ t.tracks)
    (hopen : track.locked = false) (hc : clip ∈ track.clips) (time : Rat) :
    t.slideClip clip.id time = t ↔ clip.draggedStart time = clip.start := by
  constructor
  · intro hsame
    obtain ⟨clips, x, hu, hd, -⟩ := h.exists_slid hl ht hopen hc time
    have hmem : clip.slid (clip.draggedStart time) x ∈ (t.replaceTrack { track with clips }).allClips :=
      mem_allClips_replaceTrack ht rfl hd
    rw [← hu, hsame] at hmem
    have he := List.inj_on_of_nodup_map hl.clipIds hmem (mem_allClips ht hc) rfl
    have htrim : clip.trimIn + (clip.draggedStart time - clip.start) = clip.trimIn :=
      congrArg (·.trimIn) he
    linarith
  · intro he
    rw [Timeline.slideClip, h.exchange_eq hl ht hopen hc, he, Clip.slid_self,
      replaceClip_self (nodup_clipIds hl.clipIds ht) hc, (h track ht).settle_self,
      replaceTrack_self hl.trackIds ht]

/-- **The start of a clip dragged.** A clip of a timeline that is reached, on an unlocked track, has
its trim moved along with its start. It ends where it did, and shows the same media wherever it is
seen both before and after, just when the place that it is dragged to is free of other clips:
otherwise it is pushed on. To drag it there again then moves its end anew, unless its media is
shown from the beginning. -/
theorem Reachable.resizeStart_keeps_iff (h : t.Reachable) (ht : track ∈ t.tracks)
    (hopen : track.locked = false) (hc : clip ∈ track.clips) (time : Rat) (ids : Ids) :
    ∃ u, ∃ d ∈ u.allClips, (Edit.resizeClip clip.id .start time).apply t ids = .ok (u, ids) ∧
      d = clip.slid (clip.draggedStart time) d.start ∧
      (d.start = clip.draggedStart time ↔ track.FreeFor clip.id (clip.draggedStart time)) ∧
      (d.finish = clip.finish ↔ track.FreeFor clip.id (clip.draggedStart time)) ∧
      ((∀ instant before after, clip.shows? instant = some before → d.shows? instant = some after →
        after = before) ↔ track.FreeFor clip.id (clip.draggedStart time)) ∧
      ((Edit.resizeClip clip.id .start time).apply u ids = .ok (u, ids) ↔
        track.FreeFor clip.id (clip.draggedStart time) ∨ d.trimIn = 0) := by
  have hfits := (h.sound track ht).clips clip hc
  have hreach := h.slideClip clip.id time
  obtain ⟨clips, x, hu, hd, hx⟩ := h.sound.exists_slid h.linked ht hopen hc time
  rw [hu] at hreach
  have hplace : (x = clip.draggedStart time ∨
      clip.draggedStart time < x ∧ clip.draggedStart time < clip.start) ∧ x < clip.finish ∧
      (x = clip.draggedStart time ↔ track.FreeFor clip.id (clip.draggedStart time)) := by
    have hlast := (hfits.draggedStart_mem time).2.2
    have hinside := hfits.start_le_last
    rw [minClipDuration_eq] at hinside hlast
    rcases hx with ⟨he, hfree⟩ | ⟨hlt, hle, hnot⟩
    · exact ⟨.inl he, by linarith, iff_of_true he hfree⟩
    · have hearly := hlt.trans_le hle
      rw [overlapTolerance_eq] at hlt hle
      exact ⟨.inr ⟨by linarith, hearly⟩, by linarith, iff_of_false (by linarith) hnot⟩
  obtain ⟨hplace, hseen, hfree⟩ := hplace
  have hle : clip.draggedStart time ≤ x := by
    rcases hplace with he | ⟨hlt, -⟩
    · exact he.ge
    · exact hlt.le
  have hmem : clip.slid (clip.draggedStart time) x ∈ (t.replaceTrack { track with clips }).allClips :=
    mem_allClips_replaceTrack ht rfl hd
  refine ⟨_, _, hmem, ?_, rfl, hfree, ?_, ?_, ?_⟩
  · rw [h.apply_resizeStart, hu]
  · rw [Clip.slid_finish, ← hfree]
    constructor <;> intro he <;> linarith
  · rw [← hfree]
    exact hfits.shows_slid_iff hle hseen
  · have hself := hreach.sound.slideClip_eq_self_iff hreach.linked (mem_tracks_replaceTrack ht rfl)
      hopen hd time
    rw [← hfree, ← hfits.draggedStart_slid_iff hplace]
    refine Iff.trans ?_ hself
    rw [hreach.apply_resizeStart, Except.ok.injEq, Prod.mk.injEq, eq_self, and_true]
    rfl

/-- The rough cut with its second clip cut in two. -/
def slicedCut : Timeline Rat := roughCut.after (.splitClip "b" 6 (some "d"))

theorem slicedCut_reachable : slicedCut.Reachable :=
  roughCut_reachable.after (.splitClip "b" 6 (some "d"))
    (by rintro _ ⟨⟩; exact not_mem_of_contains (by cbv)) (by cbv)

theorem slicedCut_clipTable : slicedCut.clipTable =
    [("a", 0, 4, none), ("b", 4, 6, none), ("d", 6, 8, some 3), ("c", 0, 4, none)] := by
  cbv

/-- The start of the last clip dragged to the right, where nothing else is. -/
def tightCut : Timeline Rat := slicedCut.slideClip "d" 7

theorem tightCut_keeps :
    (∃ clip ∈ slicedCut.allClips, ∃ d ∈ tightCut.allClips, clip.id = "d" ∧
      d.start = 7 ∧ d.finish = clip.finish ∧
      ∀ instant before after, clip.shows? instant = some before → d.shows? instant = some after →
        after = before) ∧
    (Edit.resizeClip "d" .start 7).apply slicedCut .start = .ok (tightCut, .start) ∧
    (Edit.resizeClip "d" .start 7).apply tightCut .start = .ok (tightCut, .start) := by
  have hr : (Edit.resizeClip "d" .start 7).apply slicedCut .start = .ok (tightCut, .start) :=
    slicedCut_reachable.apply_resizeStart "d" 7 .start
  have hsome : (slicedCut.editable? "d").isSome = true := by cbv
  obtain ⟨⟨track, clip⟩, hedit⟩ := Option.isSome_iff_exists.1 hsome
  obtain ⟨ht, hopen, hc, hid⟩ := editable?_eq_some hedit
  have hfree : (slicedCut.editable? "d").all (fun found =>
      decide (found.1.FreeFor found.2.id (found.2.draggedStart 7)) &&
        decide (found.2.draggedStart 7 = 7)) = true := by cbv
  rw [hedit, Option.all_some, Bool.and_eq_true, decide_eq_true_eq, decide_eq_true_eq] at hfree
  obtain ⟨hfree, hseven⟩ := hfree
  obtain ⟨u, d, hd, hu, -, hstart, hfinish, hshows, hagain⟩ :=
    slicedCut_reachable.resizeStart_keeps_iff ht hopen hc 7 .start
  have htwice := hagain.2 (.inl hfree)
  rw [hid] at hu htwice
  cases hr.symm.trans hu
  exact ⟨⟨clip, mem_allClips ht hc, d, hd, hid, (hstart.2 hfree).trans hseven, hfinish.2 hfree,
    hshows.2 hfree⟩, hr, htwice⟩

/-- The start of that clip dragged to the left instead, into the one before it. -/
def slippedCut : Timeline Rat := slicedCut.slideClip "d" 5

theorem slippedCut_clipTable : slippedCut.clipTable =
    [("a", 0, 4, none), ("b", 4, 6, none), ("d", 6, 9, some 2), ("c", 0, 4, none)] := by
  cbv

theorem slippedCut_slideClip_clipTable : (slippedCut.slideClip "d" 5).clipTable =
    [("a", 0, 4, none), ("b", 4, 6, none), ("d", 6, 10, some 1), ("c", 0, 4, none)] := by
  cbv

/-- Dragged into the one before it, a clip ends later and shows other media, and does so again when it
is dragged there once more. -/
theorem slippedCut_slips :
    slicedCut.Reachable ∧
    (Edit.resizeClip "d" .start 5).apply slicedCut .start = .ok (slippedCut, .start) ∧
    (Edit.resizeClip "d" .start 5).apply slippedCut .start =
      .ok (slippedCut.slideClip "d" 5, .start) ∧
    slicedCut.clipTable =
      [("a", 0, 4, none), ("b", 4, 6, none), ("d", 6, 8, some 3), ("c", 0, 4, none)] ∧
    slippedCut.clipTable =
      [("a", 0, 4, none), ("b", 4, 6, none), ("d", 6, 9, some 2), ("c", 0, 4, none)] ∧
    slippedCut.slideClip "d" 5 ≠ slippedCut := by
  have hother : slippedCut.slideClip "d" 5 ≠ slippedCut := by
    intro he
    have htable := slippedCut_slideClip_clipTable
    rw [he, slippedCut_clipTable] at htable
    simp at htable
  exact ⟨slicedCut_reachable, slicedCut_reachable.apply_resizeStart "d" 5 .start,
    (slicedCut_reachable.slideClip "d" 5).apply_resizeStart "d" 5 .start, slicedCut_clipTable,
    slippedCut_clipTable, hother⟩

end Timeline

end Montage
