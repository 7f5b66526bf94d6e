/-
What cutting a clip leaves, in exact arithmetic.

A clip that is cut makes way for two halves (`Clip.Halves`): they meet at the cut, are seen where
the clip was, and show at every instant what it did. Nothing else on its track is moved, so that a
timeline that is reached is after a cut what it was, but for the halves in the place of the clip, the
transition at the clip's end, which goes along, and the links to the clip (`Reachable.splitClip_halves`).
-/
import Montage.Proofs.Edit.Frame
import Montage.Proofs.Edit.Attached

namespace Montage

namespace Clip

/-- The time of its media that a clip shows at an instant, while it is seen. -/
def shows? (c : Clip Rat) (instant : Rat) : Option Rat :=
  if c.start ≤ instant ∧ instant < c.finish then some (c.trimIn + (instant - c.start)) else none

/-- The clip without links to another one. -/
def released (id : String) (c : Clip Rat) : Clip Rat :=
  { c with
    detachedAudio := c.detachedAudio.filter (· != id)
    linkedVideo := c.linkedVideo.filter (· != id) }

theorem released_free (id : String) (c : Clip Rat) :
    (c.released id).detachedAudio ≠ some id ∧ (c.released id).linkedVideo ≠ some id := by
  simp [released, Option.filter_eq_some_iff]

/-- Two clips in the place of one that is cut at a time. -/
structure Halves (clip : Clip Rat) (time : Rat) (id : String) (first second : Clip Rat) : Prop where
  first_eq : first = { clip with
    trimOut := first.trimOut, audioMuted := false, detachedAudio := none, linkedVideo := none }
  second_eq : second = { clip with
    id, name := clip.name ++ " (2)", start := time, trimIn := second.trimIn
    audioMuted := false, detachedAudio := none, linkedVideo := none }
  first_finish : first.finish = time
  second_finish : second.finish = clip.finish
  first_visible : minClipDuration ≤ first.visibleDuration
  second_visible : minClipDuration ≤ second.visibleDuration
  shows : ∀ instant, (first.shows? instant).or (second.shows? instant) = clip.shows? instant

variable {clip : Clip Rat} {time : Rat} {id : String}

/-- The parts of a clip that is cut are halves of it. -/
theorem halves_of_cuts (hcuts : Timeline.cuts clip time = true) (id : String) :
    clip.Halves time id (Timeline.headPart clip time) (Timeline.tailPart clip id time) where
  first_eq := rfl
  second_eq := rfl
  first_finish := headPart_finish clip time
  second_finish := tailPart_finish clip id time
  first_visible := by
    rw [headPart_length]
    linarith [(cuts_eq_true.1 hcuts).1]
  second_visible := by
    rw [tailPart_length]
    linarith [(cuts_eq_true.1 hcuts).2]
  shows instant := by
    obtain ⟨hfirst, hlast⟩ := cuts_eq_true.1 hcuts
    rw [minClipDuration_eq] at hfirst hlast
    have htrim : (Timeline.tailPart clip id time).trimIn + (instant - time) =
        clip.trimIn + (instant - clip.start) := by
      simp only [Timeline.tailPart]
      ring
    have hhead : (Timeline.headPart clip time).shows? instant =
        if clip.start ≤ instant ∧ instant < time then some (clip.trimIn + (instant - clip.start))
        else none := by
      rw [shows?, headPart_finish]
      rfl
    have htail : (Timeline.tailPart clip id time).shows? instant =
        if time ≤ instant ∧ instant < clip.finish then some (clip.trimIn + (instant - clip.start))
        else none := by
      rw [shows?, tailPart_finish, ← htrim]
      rfl
    rw [hhead, htail, shows?]
    rcases lt_or_ge instant time with hlt | hge
    · have hfinish : instant < clip.finish := by linarith
      simp [hlt, not_le.2 hlt, hfinish]
    · have hstart : clip.start ≤ instant := by linarith
      simp [hge, not_lt.2 hge, hstart]

/-- To let go of one clip is to be unlinked from it. -/
theorem unlink_eq_released (id : String) : Clip.unlink [id] false = released id := by
  funext c
  have hlink (link : Option String) : (if namesOne [id] link then none else link) =
      link.filter (· != id) := by
    cases link with
    | none => rfl
    | some i => by_cases he : i = id <;> simp [namesOne, Option.filter, he]
  simp only [unlink, released, hlink, Bool.and_false, Bool.or_false]

end Clip

/-- After a cut only a transition at the start is one of the clip that was cut, and only one at the end
is one of the new clip. -/
theorem Transition.side_of_rehomed {x : Transition Rat} {clipId id : String} (hx : x.clipId ≠ id)
    (hid : clipId ≠ id) :
    ((x.rehomed clipId id).clipId = clipId → (x.rehomed clipId id).side = .start) ∧
      ((x.rehomed clipId id).clipId = id → (x.rehomed clipId id).side = .finish) := by
  unfold rehomed
  split
  · next hend =>
    rw [Bool.and_eq_true, beq_iff_eq, beq_iff_eq] at hend
    exact ⟨fun he => absurd he.symm hid, fun _ => hend.2⟩
  · next hnot =>
    refine ⟨fun he => ?_, fun he => absurd he hx⟩
    cases hside : x.side with
    | start => rfl
    | finish => simp [he, hside] at hnot

namespace Timeline

variable {t : Timeline Rat} {track other : Track Rat} {clip c : Clip Rat} {time : Rat}

/-! ## Clips that can be edited -/

/-- A clip stands on one track. -/
theorem Sound.eq_of_clip (h : t.Sound) (hl : t.Linked) (ht : track ∈ t.tracks)
    (hc : clip ∈ track.clips) (hother : other ∈ t.tracks) (hmem : c ∈ other.clips)
    (hid : c.id = clip.id) : other = track ∧ c = clip := by
  obtain rfl := List.inj_on_of_nodup_map hl.clipIds (mem_allClips hother hmem) (mem_allClips ht hc) hid
  have hhome : other.id = track.id :=
    ((h other hother).clips c hmem).home.symm.trans ((h track ht).clips c hc).home
  exact ⟨List.inj_on_of_nodup_map hl.trackIds hother ht hhome, rfl⟩

/-- A clip of an unlocked track can be edited by its id. -/
theorem Sound.editable?_eq (h : t.Sound) (hl : t.Linked) (ht : track ∈ t.tracks)
    (hopen : track.locked = false) (hc : clip ∈ track.clips) :
    t.editable? clip.id = some (track, clip) := by
  have hfound : track.findClip clip.id = some clip :=
    find?_key_eq_some (nodup_clipIds hl.clipIds ht) hc rfl
  have hsome : (t.trackOf clip.id).isSome := List.find?_isSome.2 ⟨track, ht, by simp [hfound]⟩
  obtain ⟨other, hother⟩ := Option.isSome_iff_exists.1 hsome
  have hhas := List.find?_some hother
  obtain ⟨c, hfind⟩ := Option.isSome_iff_exists.1 hhas
  have hid : c.id = clip.id := by simpa using List.find?_some hfind
  obtain ⟨rfl, -⟩ := h.eq_of_clip hl ht hc (List.mem_of_find?_eq_some hother)
    (List.mem_of_find?_eq_some hfind) hid
  simp [editable?, hother, hopen, hfound]

/-! ## Links to a clip that is cut -/

/-- No clip has to let go of one that has no links. -/
theorem Linked.released_eq_self (hl : t.Linked) (hc : clip ∈ t.allClips)
    (hfree : (clip.detachedAudio.isSome || clip.linkedVideo.isSome) = false) (hmem : c ∈ t.allClips) :
    c.released clip.id = c := by
  have hclear : clip.bond.clear = clip.bond := by
    simp only [Bool.or_eq_false_iff, Option.isSome_eq_false_iff, Option.isNone_iff_eq_none] at hfree
    simp [Clip.bond, Bond.clear, hfree]
  have hself := hl.matched.unlink_eq_self (mem_bonds hc) hclear (mem_bonds hmem)
  have hbond : (c.released clip.id).bond = c.bond := by
    rw [← Clip.unlink_eq_released, ← hself]
    rfl
  simp only [Clip.bond, Bond.mk.injEq] at hbond
  obtain ⟨-, -, hdetached, hlinked⟩ := hbond
  simp only [Clip.released] at hdetached hlinked ⊢
  rw [hdetached, hlinked]

/-! ## Timelines around a cut -/

/-- The timeline with two clips in the place of one that is cut. -/
theorem Sound.splitClip_of_cuts (h : t.Sound) (hl : t.Linked) (ht : track ∈ t.tracks)
    (hopen : track.locked = false) (hc : clip ∈ track.clips) (hcuts : cuts clip time = true)
    (given : Option String) (ids : Ids) :
    ∃ pre post, track.clips = pre ++ clip :: post ∧
      t.splitClip clip.id time given ids =
        ({ (t.replaceTrack { track with clips := (pre ++ headPart clip time ::
              tailPart clip (ids.choose given).1 time :: post) }).mapClips (Clip.released clip.id) with
            transitions := t.transitions.map (Transition.rehomed clip.id (ids.choose given).1) },
          (ids.choose given).2) := by
  obtain ⟨pre, post, hsplit, hsettled⟩ := h.settle_cut hl ht hc hcuts (ids.choose given).1
  refine ⟨pre, post, hsplit, ?_⟩
  simp only [Timeline.splitClip, h.editable?_eq hl ht hopen hc, hcuts, chooseLabel_eq, Bool.not_true,
    Bool.false_eq_true, if_false, hsettled, Clip.unlink_eq_released]
  split
  · rfl
  · next hfree =>
    rw [Bool.not_eq_true] at hfree
    rw [mapClips_eq_self fun c hmem => ?_]
    · rfl
    obtain ⟨x, hx, hmem⟩ := List.mem_flatMap.1 hmem
    have hold {c : Clip Rat} (hmem : c ∈ t.allClips) : c.released clip.id = c :=
      hl.released_eq_self (mem_allClips ht hc) hfree hmem
    rcases mem_replaceTrack hx with rfl | hx
    · simp only [List.mem_append, List.mem_cons] at hmem
      rcases hmem with hmem | rfl | rfl | hmem
      · exact hold (mem_allClips ht (by simp [hsplit, hmem]))
      · rfl
      · rfl
      · exact hold (mem_allClips ht (by simp [hsplit, hmem]))
    · exact hold (mem_allClips hx hmem)

/-- **Two halves in the place of a clip.** A clip of a timeline that is reached, on an unlocked track,
is cut at a time unless that is outside the clip or nearer to one of its ends than the least length,
and nothing changes then. The halves follow each other where the clip was and show at every instant what
it did; all other clips stay as they are, but that none keeps a link to the clip. The look and the
transition at the start stay with the first half, and the transition at the end goes to the second. -/
theorem Reachable.splitClip_halves (h : t.Reachable) (ht : track ∈ t.tracks)
    (hopen : track.locked = false) (hc : clip ∈ track.clips) (time : Rat) (given : Option String)
    (ids : Ids) :
    ∃ u rest, (Edit.splitClip clip.id time given).apply t ids = .ok (u, rest) ∧
      (u = t ↔ time < clip.start + minClipDuration ∨ clip.finish - minClipDuration < time) ∧
      (u ≠ t → ∃ first second pre post,
        clip.Halves time (ids.choose given).1 first second ∧
        track.clips = pre ++ clip :: post ∧
        u = { (t.replaceTrack { track with clips := (pre ++ first :: second :: post) }).mapClips
                (Clip.released clip.id) with
              transitions := t.transitions.map (Transition.rehomed clip.id (ids.choose given).1) } ∧
        (∀ d ∈ u.allClips, d.detachedAudio ≠ some clip.id ∧ d.linkedVideo ≠ some clip.id) ∧
        ((ids.choose given).1 ∉ t.allClips.map (·.id) →
          (∀ x ∈ u.transitions, (x.clipId = clip.id → x.side = .start) ∧
            (x.clipId = (ids.choose given).1 → x.side = .finish)) ∧
          ∀ l ∈ u.looks, l.clipId ≠ (ids.choose given).1)) := by
  rw [Edit.apply_eq_run, Edit.run]
  by_cases hcuts : cuts clip time = true
  · obtain ⟨pre, post, hsplit, hu⟩ :=
      h.sound.splitClip_of_cuts h.linked ht hopen hc hcuts given ids
    refine ⟨_, _, congrArg Except.ok hu, ⟨fun he => ?_, fun hout => ?_⟩, fun _ =>
      ⟨_, _, pre, post, clip.halves_of_cuts hcuts _, hsplit, rfl, fun d hd => ?_, fun hid =>
        ⟨fun y hy => ?_, fun l hl he => hid (he ▸ h.attached.looks l hl)⟩⟩⟩
    · -- There would be one clip more than there is.
      obtain ⟨rest, hbefore, hafter⟩ := exists_rest h.linked.trackIds ht
      let cut : Track Rat := { track with clips :=
        (pre ++ headPart clip time :: tailPart clip (ids.choose given).1 time :: post) }
      have hmore : (t.replaceTrack cut).allClips.length = t.allClips.length + 1 := by
        rw [(hafter cut rfl).length_eq, hbefore.length_eq, hsplit]
        simp only [cut, List.length_append, List.length_cons]
        omega
      have hsame : ((t.replaceTrack cut).mapClips (Clip.released clip.id)).allClips.length =
          t.allClips.length := congrArg (fun t => t.allClips.length) he
      rw [allClips_mapClips, List.length_map, hmore] at hsame
      omega
    · obtain ⟨hfirst, hlast⟩ := cuts_eq_true.1 hcuts
      exact absurd hout (not_or.2 ⟨not_lt.2 hfirst, not_lt.2 hlast⟩)
    · have hd := allClips_mapClips _ _ ▸ hd
      obtain ⟨c, -, rfl⟩ := List.mem_map.1 hd
      exact c.released_free clip.id
    · have hclip : clip.id ≠ (ids.choose given).1 := fun he =>
        hid (he ▸ List.mem_map_of_mem (mem_allClips ht hc))
      obtain ⟨x, hx, rfl⟩ := List.mem_map.1 hy
      exact Transition.side_of_rehomed (fun he => hid (he ▸ h.attached.transitions x hx)) hclip
  · have hu : t.splitClip clip.id time given ids = (t, ids) := by
      simp [Timeline.splitClip, h.sound.editable?_eq h.linked ht hopen hc, hcuts]
    refine ⟨t, ids, congrArg Except.ok hu, ⟨fun _ => ?_, fun _ => rfl⟩, fun hne => absurd rfl hne⟩
    rw [cuts_eq_true, not_and_or, not_le, not_le] at hcuts
    exact hcuts

/-- The titled cut with a transition and a look at the clip that is linked. -/
def markedCut : Timeline Rat :=
  (titledCut.setTransition "a" .dissolve 1 .finish .start).1.after
    (.setLook "a" [("sepia", .bool true)])

theorem markedCut_reachable : markedCut.Reachable := by
  have h : (titledCut.setTransition "a" .dissolve 1 .finish .start).1.Reachable :=
    titledCut_reachable.issuing (.setTransition "a" .dissolve 1 .finish) trivial (by cbv)
      (congrArg Except.ok (Prod.ext rfl (by cbv)))
  exact h.after (.setLook "a" [("sepia", .bool true)]) trivial (by cbv)

theorem markedCut_clips :
    markedCut.allClips.map (fun c => (c.id, c.start, c.finish, c.linkedVideo)) =
      [("a", 0, 4, none), ("b", 4, 8, none), ("c", 0, 4, some "a")] := by
  cbv

/-- The marked cut with that clip cut in two. -/
def partedCut : Timeline Rat := markedCut.after (.splitClip "a" 2 (some "d"))

theorem partedCut_clips :
    partedCut.allClips.map (fun c => (c.id, c.start, c.finish, c.linkedVideo)) =
      [("a", 0, 2, none), ("d", 2, 4, none), ("b", 4, 8, none), ("c", 0, 4, none)] := by
  cbv

theorem partedCut_marks :
    partedCut.transitions.map (fun x => (x.clipId, x.side)) = [("d", .finish)] ∧
    partedCut.looks.map (·.clipId) = ["b", "a"] :=
  ⟨by cbv, by cbv⟩

theorem partedCut_halves :
    (Edit.splitClip "a" 2 (some "d")).apply markedCut .start = .ok (partedCut, .start) ∧
    (∃ clip ∈ markedCut.allClips, ∃ first ∈ partedCut.allClips, ∃ second ∈ partedCut.allClips,
      clip.id = "a" ∧ clip.Halves 2 "d" first second) ∧
    (∀ d ∈ partedCut.allClips, d.detachedAudio ≠ some "a" ∧ d.linkedVideo ≠ some "a") ∧
    partedCut.transitions.map (fun x => (x.clipId, x.side)) = [("d", .finish)] ∧
    partedCut.looks.map (·.clipId) = ["b", "a"] := by
  have hr : (Edit.splitClip "a" 2 (some "d")).apply markedCut .start = .ok (partedCut, .start) :=
    (Edit.apply_eq_run ..).trans (congrArg Except.ok (Prod.ext rfl (by cbv)))
  have hsome : (markedCut.editable? "a").isSome = true := by cbv
  obtain ⟨⟨track, clip⟩, hedit⟩ := Option.isSome_iff_exists.1 hsome
  obtain ⟨ht, hopen, hc, hid⟩ := editable?_eq_some hedit
  obtain ⟨u, rest, hu, -, hhalves⟩ :=
    markedCut_reachable.splitClip_halves ht hopen hc 2 (some "d") .start
  rw [hid] at hu hhalves
  cases hr.symm.trans hu
  have hother : partedCut ≠ markedCut := by
    intro he
    have hclips := partedCut_clips
    rw [he, markedCut_clips] at hclips
    simp at hclips
  obtain ⟨first, second, pre, post, hhalf, -, hparted, hfree, -⟩ := hhalves hother
  have hparts {c : Clip Rat} (hmem : c ∈ pre ++ first :: second :: post)
      (hself : c.released "a" = c) : c ∈ partedCut.allClips := by
    let halved := markedCut.replaceTrack { track with clips := (pre ++ first :: second :: post) }
    have hin : c ∈ halved.allClips := mem_allClips_replaceTrack ht rfl hmem
    rw [hparted]
    exact allClips_mapClips halved (Clip.released "a") ▸ List.mem_map.2 ⟨c, hin, hself⟩
  have hfirst : first.released "a" = first := by
    rw [hhalf.first_eq]
    rfl
  have hsecond : second.released "a" = second := by
    rw [hhalf.second_eq]
    rfl
  exact ⟨hr, ⟨clip, mem_allClips ht hc, first, hparts (by simp) hfirst, second,
    hparts (by simp) hsecond, hid, hhalf⟩, hfree, partedCut_marks⟩

end Timeline

end Montage
