/-
What dropping a clip at a free place does, in exact arithmetic.

A clip that is dropped where none of the others of a track is stays there, and no other clip is
moved, neither there nor on the track it comes from (`Reachable.moveClip_drops`).
-/
import Montage.Proofs.FreePlaces
import Montage.Proofs.Edit.Dragging

namespace Montage

/-- The clip on a track and from a time on. -/
def Clip.putOn (c : Clip Rat) (trackId : String) (start : Rat) : Clip Rat := { c with trackId, start }

/-- A track before and after a clip is dropped: the clip is on it where it is at home and nowhere
else, and all other clips are as they were, in their order. -/
structure Track.Drops (moved : Clip Rat) (track after : Track Rat) : Prop where
  rest : after = { track with clips := after.clips }
  others : after.clips.filter (·.id != moved.id) = track.clips.filter (·.id != moved.id)
  moved : after.clips.filter (·.id == moved.id) = if track.id = moved.trackId then [moved] else []

/-- A timeline before and after a clip is dropped. -/
structure Timeline.Drops (moved : Clip Rat) (t u : Timeline Rat) : Prop where
  rest : u = { t with tracks := u.tracks }
  tracks : List.Forall₂ (Track.Drops moved) t.tracks u.tracks

/-! ## Tracks -/

theorem others_clips (clips : List (Clip Rat)) (id : String) :
    others clips (some id) = clips.filter (·.id != id) := rfl

namespace Track.Drops

variable {track : Track Rat} {moved : Clip Rat} {items : List (Clip Rat)}

/-- Any other track loses the clip, if it has it. -/
theorem filter (hne : track.id ≠ moved.trackId) :
    Track.Drops moved track { track with clips := track.clips.filter (·.id != moved.id) } where
  rest := rfl
  others := by simp [List.filter_filter]
  moved := by
    rw [if_neg hne]
    exact List.filter_eq_nil_iff.2 fun c hc => by simpa using (List.mem_filter.1 hc).2

theorem refl (hne : track.id ≠ moved.trackId) (hnone : ∀ c ∈ track.clips, c.id ≠ moved.id) :
    Track.Drops moved track track := by
  have hall : track.clips.filter (·.id != moved.id) = track.clips :=
    List.filter_eq_self.2 fun c hc => by simpa using hnone c hc
  simpa only [hall] using filter hne

/-- The track that the clip is dropped on, settled with it and the others. -/
theorem settle (hs : track.Sound) (hid : track.id = moved.trackId)
    (hfits : moved.Fits track.id track.kind)
    (hitems : items.Perm (moved :: track.clips.filter (·.id != moved.id)))
    (hfree : FreeAt (Montage.others track.clips (some moved.id)) moved.start moved.visibleDuration) :
    Track.Drops moved track (track.settle items) := by
  have hclips : ∀ c ∈ moved :: track.clips.filter (·.id != moved.id), c.Fits track.id track.kind := by
    intro c hc
    rcases List.mem_cons.1 hc with rfl | hc
    · exact hfits
    · exact hs.clips c (List.mem_of_mem_filter hc)
  rw [others_clips] at hfree
  obtain ⟨pre, post, hsplit, hresolve⟩ := resolve_of_freeAt hitems (hs.spaced.filter _)
    (fun c hc => (hclips c hc).start) (fun c hc => (hclips c hc).tolerance_lt_length) hfree
  have hne : ∀ c ∈ pre ++ post, c.id ≠ moved.id := fun c hc => by
    rw [← hsplit] at hc
    simpa using (List.mem_filter.1 hc).2
  refine ⟨rfl, ?_, ?_⟩
  · rw [Track.settle, hresolve, filter_ne_of_split hne, hsplit]
  · rw [Track.settle, hresolve, filter_eq_of_split hne, if_pos hid]

end Track.Drops

/-! ## Timelines -/

namespace Timeline

variable {t : Timeline Rat} {source target : Track Rat} {clip moved : Clip Rat} {x : Rat}

theorem Drops.of_map {f : Track Rat → Track Rat}
    (h : ∀ track ∈ t.tracks, Track.Drops moved track (f track)) :
    t.Drops moved { t with tracks := t.tracks.map f } :=
  ⟨rfl, List.forall₂_map_right_iff.2 (List.forall₂_same.2 h)⟩

theorem Linked.receiver?_eq (hl : t.Linked) (ht : target ∈ t.tracks) (hopen : target.locked = false)
    {kind : MediaKind} (hkind : target.kind.accepts kind = true) :
    t.receiver? target.id kind = some target := by
  have hfind : t.findTrack target.id = some target := find?_key_eq_some hl.trackIds ht rfl
  simp [receiver?, hfind, hopen, hkind]

/-- A clip that is moved within its track, or from it to another one. -/
theorem Reachable.moveClip_eq (h : t.Reachable) (hs : source ∈ t.tracks)
    (hsource : source.locked = false) (hc : clip ∈ source.clips) (ht : target ∈ t.tracks)
    (htarget : target.locked = false) (hkind : target.kind.accepts clip.kind = true) (hx : 0 ≤ x) :
    t.moveClip clip.id target.id x =
      if source.id = target.id then
        t.replaceTrack (source.settle (replaceClip source.clips (clip.putOn target.id x)))
      else
        (t.replaceTrack { source with clips := source.clips.filter (·.id != clip.id) }).replaceTrack
          (target.settle (target.clips ++ [clip.putOn target.id x])) := by
  have hplace : Scalar.larger 0.0 x = x := by simp [hx]
  simp only [moveClip, h.sound.editable?_eq h.linked hs hsource hc,
    h.linked.receiver?_eq ht htarget hkind, hplace, beq_iff_eq]
  rfl

theorem Reachable.id_ne_of_track_ne (h : t.Reachable) (hs : source ∈ t.tracks) (hc : clip ∈ source.clips)
    {track : Track Rat} (htrack : track ∈ t.tracks) (hne : track.id ≠ source.id) :
    ∀ c ∈ track.clips, c.id ≠ clip.id := fun _ hmem hid =>
  hne (congrArg Track.id (h.sound.eq_of_clip h.linked hs hc htrack hmem hid).1)

theorem Reachable.drops_within (h : t.Reachable) (hs : source ∈ t.tracks) (hc : clip ∈ source.clips)
    (hfits : (clip.putOn source.id x).Fits source.id source.kind)
    (hfree : FreeAt (others source.clips (some clip.id)) x clip.visibleDuration) :
    t.Drops (clip.putOn source.id x)
      (t.replaceTrack (source.settle (replaceClip source.clips (clip.putOn source.id x)))) := by
  obtain ⟨pre, post, hsplit, hne⟩ :=
    exists_split_of_mem (nodup_clipIds h.linked.clipIds hs) hc
  have hitems : (replaceClip source.clips (clip.putOn source.id x)).Perm
      (clip.putOn source.id x :: source.clips.filter (·.id != clip.id)) := by
    have hclips : replaceClip (pre ++ clip :: post) (clip.putOn source.id x) =
        pre ++ clip.putOn source.id x :: post := replaceClip_of_split hne rfl
    rw [hsplit, hclips, filter_ne_of_split hne]
    exact List.perm_middle
  refine .of_map fun track htrack => ?_
  split
  · next he =>
    obtain rfl := List.inj_on_of_nodup_map h.linked.trackIds htrack hs (beq_iff_eq.1 he)
    exact .settle (h.sound track hs) rfl hfits hitems hfree
  · next he =>
    have he : track.id ≠ source.id := fun hid => he (beq_iff_eq.2 hid)
    exact .refl he (h.id_ne_of_track_ne hs hc htrack he)

theorem Reachable.drops_across (h : t.Reachable) (hs : source ∈ t.tracks) (hc : clip ∈ source.clips)
    (ht : target ∈ t.tracks) (hne : source.id ≠ target.id)
    (hfits : (clip.putOn target.id x).Fits target.id target.kind)
    (hfree : FreeAt (others target.clips (some clip.id)) x clip.visibleDuration) :
    t.Drops (clip.putOn target.id x)
      ((t.replaceTrack { source with clips := source.clips.filter (·.id != clip.id) }).replaceTrack
        (target.settle (target.clips ++ [clip.putOn target.id x]))) := by
  have hnone := h.id_ne_of_track_ne hs hc ht hne.symm
  have hothers : target.clips.filter (·.id != clip.id) = target.clips :=
    List.filter_eq_self.2 fun c hmem => by simpa using hnone c hmem
  have hitems : (target.clips ++ [clip.putOn target.id x]).Perm
      (clip.putOn target.id x :: target.clips.filter (·.id != clip.id)) := by
    rw [hothers]
    exact List.perm_append_singleton _ _
  unfold replaceTrack
  rw [List.map_map]
  refine .of_map fun track htrack => ?_
  rw [Function.comp_apply]
  by_cases hfrom : track.id = source.id
  · obtain rfl := List.inj_on_of_nodup_map h.linked.trackIds htrack hs hfrom
    rw [if_pos (beq_iff_eq.2 rfl)]
    split
    · next he => exact absurd (beq_iff_eq.1 he) hne
    · exact .filter hne
  · have hstay : (track.id == source.id) = false := beq_eq_false_iff_ne.2 hfrom
    simp only [hstay, Bool.false_eq_true, if_false]
    split
    · next he =>
      obtain rfl := List.inj_on_of_nodup_map h.linked.trackIds htrack ht (beq_iff_eq.1 he)
      exact .settle (h.sound track ht) rfl hfits hitems hfree
    · next he =>
      exact .refl (fun hid => he (beq_iff_eq.2 hid)) (h.id_ne_of_track_ne hs hc htrack hfrom)

/-- **A clip dropped at a free place moves no other one.** -/
theorem Reachable.moveClip_drops (h : t.Reachable) (hs : source ∈ t.tracks)
    (hsource : source.locked = false) (hc : clip ∈ source.clips) (ht : target ∈ t.tracks)
    (htarget : target.locked = false) (hkind : target.kind.accepts clip.kind = true) (hx : 0 ≤ x)
    (hfree : FreeAt (others target.clips (some clip.id)) x clip.visibleDuration) :
    t.Drops (clip.putOn target.id x) (t.moveClip clip.id target.id x) := by
  have hfits : (clip.putOn target.id x).Fits target.id target.kind := by
    have hmoved := ((h.sound source hs).clips clip hc).moved hkind x
    rwa [Scalar.larger_eq_max, Scalar.zero_eq, max_eq_right hx] at hmoved
  rw [h.moveClip_eq hs hsource hc ht htarget hkind hx]
  split
  · next hid =>
    obtain rfl := List.inj_on_of_nodup_map h.linked.trackIds hs ht hid
    exact h.drops_within hs hc hfits hfree
  · next hid => exact h.drops_across hs hc ht hid hfits hfree

end Timeline

end Montage
