/-
What cutting a clip in two leaves of an export, in exact arithmetic.

In a lane without warnings each clip starts after the one before it (`spaced_of_unwarned`), so that
the lane is told by its clips, in whatever order (`mergeSort_laneLe`). A cut puts the two parts of
the clip in its place on its track, and therefore in the lane (`Reachable.lane_splitClip`). They
follow one another where the clip was, and play together what it did; so the export has the same
parts, is as long as it was and plays the same (`Reachable.splitClip_plays_same`).
-/
import Montage.Proofs.Edit.Frame
import Montage.Proofs.Export.Clock
import Montage.Proofs.Export.Outcomes
import Montage.Proofs.Export.Shots

namespace Montage

/-! ## Lanes without warnings -/

/-- Clips of which none is warned of stand apart. -/
theorem spaced_of_unwarned : ∀ {items : List (Clip Rat)} {reached : Rat},
    overlapWarnings reached items = [] → (∀ c ∈ items, overlapTolerance ≤ c.visibleDuration) →
      Spaced items ∧ ∀ c ∈ items, reached - overlapTolerance ≤ c.start
  | [], _, _, _ => ⟨List.Pairwise.nil, by simp⟩
  | a :: items, reached, h, hlong => by
    obtain ⟨hearly, hrest⟩ := not_early_of_unwarned h
    obtain ⟨ha, hlong⟩ := List.forall_mem_cons.1 hlong
    obtain ⟨hspaced, hlater⟩ := spaced_of_unwarned hrest hlong
    have hend : ∀ c ∈ items, a.finish - overlapTolerance ≤ c.start := fun c hc =>
      (sub_le_sub_right (le_max_right _ _) _).trans (hlater c hc)
    refine ⟨List.pairwise_cons.2 ⟨fun c hc => ⟨?_, hend c hc⟩, hspaced⟩,
      List.forall_mem_cons.2 ⟨hearly, fun c hc => ?_⟩⟩
    · have hc := hend c hc
      rw [Clip.finish] at hc
      show a.start ≤ c.start
      linarith
    · exact (sub_le_sub_right (le_max_left _ _) _).trans (hlater c hc)

namespace Timeline

variable (t : Timeline Rat) {a b : Clip Rat} {clips sorted : List (Clip Rat)}

theorem laneLe_iff : t.laneLe a b = true ↔ a.start < b.start ∨
    a.start = b.start ∧ (t.trackIndex? a.trackId).getD 0 ≤ (t.trackIndex? b.trackId).getD 0 := by
  simp [laneLe]

theorem laneLe_trans (a b c : Clip Rat) (hab : t.laneLe a b = true) (hbc : t.laneLe b c = true) :
    t.laneLe a c = true := by
  rw [laneLe_iff] at *
  rcases hab with hab | ⟨hab, hle⟩ <;> rcases hbc with hbc | ⟨hbc, hle'⟩
  · exact .inl (hab.trans hbc)
  · exact .inl (hbc ▸ hab)
  · exact .inl (hab ▸ hbc)
  · exact .inr ⟨hab.trans hbc, hle.trans hle'⟩

theorem laneLe_total (a b : Clip Rat) : (t.laneLe a b || t.laneLe b a) = true := by
  rw [Bool.or_eq_true, laneLe_iff, laneLe_iff]
  rcases lt_trichotomy a.start b.start with h | h | h
  · exact .inl (.inl h)
  · exact (le_total _ _).imp (fun hle => .inr ⟨h, hle⟩) fun hle => .inr ⟨h.symm, hle⟩
  · exact .inr (.inl h)

theorem laneLe_antisymm_start (hab : t.laneLe a b = true) (hba : t.laneLe b a = true) :
    a.start = b.start := by
  rw [laneLe_iff] at hab hba
  rcases hab with hab | ⟨hab, -⟩
  · rcases hba with hba | ⟨hba, -⟩
    · exact absurd hba (not_lt.2 hab.le)
    · exact hba.symm
  · exact hab

/-- Clips in order, no two of which start together, are the lane of them in any order. -/
theorem mergeSort_laneLe (hperm : clips.Perm sorted)
    (hsorted : sorted.Pairwise fun a b => a.start < b.start) : clips.mergeSort t.laneLe = sorted := by
  have hstarts : (sorted.map (·.start)).Nodup := by
    rw [List.Nodup, List.pairwise_map]
    exact hsorted.imp fun hlt => hlt.ne
  have hlane : (clips.mergeSort t.laneLe).Pairwise fun a b => t.laneLe a b = true :=
    List.pairwise_mergeSort t.laneLe_trans t.laneLe_total clips
  have hle : sorted.Pairwise fun a b => t.laneLe a b = true :=
    hsorted.imp fun hlt => t.laneLe_iff.2 (.inl hlt)
  have hperm := (List.mergeSort_perm clips t.laneLe).trans hperm
  exact hperm.eq_of_pairwise (fun a b ha hb hab hba =>
    List.inj_on_of_nodup_map hstarts (hperm.mem_iff.1 ha) hb (t.laneLe_antisymm_start hab hba))
    hlane hle

/-! ## The clips of the visual tracks -/

variable {t} {u : Timeline Rat} {track old : Track Rat} {clip : Clip Rat} {ids rest : Ids}
  {clipId id : String} {given : Option String} {time : Rat}

theorem visualClips_subset (t : Timeline Rat) : t.visualClips ⊆ t.allClips := fun c hc => by
  obtain ⟨track, ht, hc⟩ := List.mem_flatMap.1 hc
  exact mem_allClips (List.mem_of_mem_filter ht) hc

@[simp] theorem visualClips_mapClips (t : Timeline Rat) (f : Clip Rat → Clip Rat) :
    (t.mapClips f).visualClips = t.visualClips.map f := by
  have hvisual : Track.isVisual ∘ (fun x : Track Rat => { x with clips := x.clips.map f }) =
      Track.isVisual := rfl
  simp [visualClips, mapClips, List.filter_map, hvisual, List.flatMap_map, List.map_flatMap]

/-- What stands on the other visual tracks when the clips of one are exchanged for others. -/
theorem exists_visual_rest (hn : (t.tracks.map (·.id)).Nodup) (ho : old ∈ t.tracks)
    (hvisual : old.isVisual = true) :
    ∃ others, t.visualClips.Perm (old.clips ++ others) ∧
      ∀ new : Track Rat, new.id = old.id → new.kind = old.kind →
        (t.replaceTrack new).visualClips.Perm (new.clips ++ others) := by
  obtain ⟨pre, post, hsplit, -, hnew⟩ := exists_split hn ho
  refine ⟨(pre.filter Track.isVisual).flatMap (·.clips) ++
    (post.filter Track.isVisual).flatMap (·.clips), ?_, fun new hid hkind => ?_⟩
  · simpa [visualClips, hsplit, hvisual] using List.perm_append_comm_assoc _ _ _
  · have hvisual : new.isVisual = true := by rwa [Track.isVisual, hkind]
    simpa [visualClips, hnew new hid, hvisual] using List.perm_append_comm_assoc _ _ _

/-- A track is visual if a clip of the lane has the id of one of its clips. -/
theorem Sound.isVisual_of_mem (h : t.Sound) (hl : t.Linked) (ht : track ∈ t.tracks)
    (hc : clip ∈ track.clips) (hvisual : clip.id ∈ t.visualClips.map (·.id)) :
    track.isVisual = true := by
  obtain ⟨c, hmem, hid⟩ := List.mem_map.1 hvisual
  obtain ⟨other, hother, hco⟩ := List.mem_flatMap.1 hmem
  obtain ⟨hother, hv⟩ := List.mem_filter.1 hother
  obtain rfl := List.inj_on_of_nodup_map hl.clipIds (mem_allClips hother hco) (mem_allClips ht hc) hid
  have hhome : other.id = track.id :=
    ((h other hother).clips c hco).home.symm.trans ((h track ht).clips c hc).home
  rwa [← List.inj_on_of_nodup_map hl.trackIds hother ht hhome]

/-! ## Clips around a cut -/

/-- A cut exchanges a clip on its track for its two parts, moves a transition along, and may change
what clips are linked to. -/
theorem Sound.splitClip_eq (h : t.Sound) (hl : t.Linked)
    (hu : t.splitClip clipId time given ids = (u, rest)) :
    u = t ∨ rest = (ids.choose given).2 ∧ ∃ track ∈ t.tracks, ∃ clip ∈ track.clips,
      clip.id = clipId ∧ cuts clip time = true ∧ ∃ pre post new f, track.clips = pre ++ clip :: post ∧
        new = { track with clips :=
          (pre ++ headPart clip time :: tailPart clip (ids.choose given).1 time :: post) } ∧
        Clip.Relinks f ∧
        u = { (t.replaceTrack new).mapClips f with
          transitions := t.transitions.map (Transition.rehomed clipId (ids.choose given).1) } := by
  rcases splitClip_cases hu with
    ⟨rfl, -⟩ | ⟨track, ht, clip, hc, rfl, hcuts, hrest, transitions, rfl, rfl⟩
  · exact .inl rfl
  obtain ⟨pre, post, hsplit, hsettled⟩ := h.settle_cut hl ht hc hcuts (ids.choose given).1
  dsimp only
  split
  · exact .inr ⟨hrest, track, ht, clip, hc, rfl, hcuts, pre, post, _, _, hsplit, hsettled,
      fun _ => ⟨_, _, _, rfl⟩, rfl⟩
  · exact .inr ⟨hrest, track, ht, clip, hc, rfl, hcuts, pre, post, _, fun c => c, hsplit, hsettled,
      Clip.relinks_self, by rw [mapClips_eq_self fun _ _ => rfl]⟩

/-- The media that are looked up after a cut were looked up before it. -/
theorem Sound.media_splitClip (h : t.Sound) (hl : t.Linked)
    (hu : t.splitClip clipId time given ids = (u, rest)) :
    ∀ d ∈ u.lookedUp, ∃ c ∈ t.lookedUp, d.mediaId = c.mediaId := by
  rcases h.splitClip_eq hl hu with
    rfl | ⟨-, track, ht, clip, hc, -, -, pre, post, new, f, hsplit, hnew, hf, rfl⟩
  · exact fun d hd => ⟨d, hd, rfl⟩
  intro d hd
  obtain ⟨x, hx, hused, hd⟩ := mem_lookedUp.1 hd
  obtain ⟨y, hy, rfl⟩ := List.mem_map.1 hx
  obtain ⟨e, he, rfl⟩ := List.mem_map.1 hd
  rw [hf.mediaId_eq]
  rcases mem_replaceTrack hy with rfl | hy
  · have hold {c : Clip Rat} (hmem : c ∈ track.clips) : c ∈ t.lookedUp :=
      mem_lookedUp.2 ⟨track, ht, by rwa [hnew] at hused, hmem⟩
    simp only [hnew, List.mem_append, List.mem_cons] at he
    rcases he with he | rfl | rfl | he
    · exact ⟨e, hold (by simp [hsplit, he]), rfl⟩
    · exact ⟨clip, hold hc, rfl⟩
    · exact ⟨clip, hold hc, rfl⟩
    · exact ⟨e, hold (by simp [hsplit, he]), rfl⟩
  · exact ⟨e, mem_lookedUp.2 ⟨y, hy, hused, he⟩, rfl⟩

/-- A cut exchanges a clip of the lane for its two parts. -/
theorem Sound.visualClips_splitClip (h : t.Sound) (hl : t.Linked)
    (hvisual : clipId ∈ t.visualClips.map (·.id))
    (hu : t.splitClip clipId time given ids = (u, rest)) :
    u = t ∨ rest = (ids.choose given).2 ∧ ∃ clip : Clip Rat, clip.id = clipId ∧
      cuts clip time = true ∧
      u.transitions = t.transitions.map (Transition.rehomed clipId (ids.choose given).1) ∧
      ∃ f others, Clip.Relinks f ∧ t.visualClips.Perm (clip :: others) ∧ u.visualClips.Perm
        ((headPart clip time :: tailPart clip (ids.choose given).1 time :: others).map f) := by
  rcases h.splitClip_eq hl hu with
    rfl | ⟨hrest, track, ht, clip, hc, rfl, hcuts, pre, post, new, f, hsplit, hnew, hf, rfl⟩
  · exact .inl rfl
  obtain ⟨others, hbefore, hafter⟩ :=
    exists_visual_rest hl.trackIds ht (h.isVisual_of_mem hl ht hc hvisual)
  have hafter := hafter new (by rw [hnew]) (by rw [hnew])
  rw [hsplit, List.append_assoc, List.cons_append] at hbefore
  rw [hnew, List.append_assoc, List.cons_append, List.cons_append, ← hnew] at hafter
  refine .inr ⟨hrest, clip, rfl, hcuts, rfl, f, pre ++ (post ++ others), hf,
    hbefore.trans List.perm_middle, ?_⟩
  show ((t.replaceTrack new).mapClips f).visualClips.Perm _
  rw [visualClips_mapClips]
  exact (hafter.trans (List.perm_middle.trans (List.perm_middle.cons _))).map f

end Timeline

/-! ## The parts of a clip -/

section Parts

variable {clip : Clip Rat} {time : Rat} {f : Clip Rat → Clip Rat}

/-- The two parts of a clip play together what the clip did. -/
theorem join?_shot_parts (clip : Clip Rat) (id : String) (time : Rat) :
    (Timeline.headPart clip time).shot.join? (Timeline.tailPart clip id time).shot =
      some clip.shot := by
  have hlength : time - clip.start + (clip.finish - time) = clip.visibleDuration := by
    rw [Clip.finish]
    ring
  have htrim : (Timeline.tailPart clip id time).trimIn = clip.trimIn + (time - clip.start) :=
    add_comm _ _
  rw [Shot.join?_eq_some]
  by_cases hkind : clip.kind = .image
  · refine .inl ⟨clip.mediaId, time - clip.start, clip.finish - time, ?_, ?_, ?_⟩
    · rw [← headPart_length]
      exact if_pos hkind
    · rw [← tailPart_length clip id]
      exact if_pos hkind
    · rw [hlength]
      exact if_pos hkind
  · refine .inr ⟨clip.mediaId, clip.trimIn, time - clip.start, clip.finish - time, ?_, ?_, ?_⟩
    · rw [← headPart_length]
      exact if_neg hkind
    · rw [← tailPart_length clip id, ← htrim]
      exact if_neg hkind
    · rw [hlength]
      exact if_neg hkind

/-- Merged, the walk along a lane comes to the same with the two parts of a clip in its place, whatever
clips are linked to. -/
theorem mergeWith_laidFrom_parts {γ : Type} {join? : γ → γ → Option γ} {blank : Rat → List γ}
    {seen : Clip Rat → γ} {id : String} (hj : Coherent join?)
    (hjoin : join? (seen (Timeline.headPart clip time)) (seen (Timeline.tailPart clip id time)) =
      some (seen clip))
    (hcuts : Timeline.cuts clip time = true) (hf : Clip.Relinks f) (hseen : ∀ c, seen (f c) = seen c)
    (pre post : List (Clip Rat)) (reached : Rat) :
    mergeWith join? (laidFrom blank (fun _ c => [seen c]) 0 reached
      ((pre ++ Timeline.headPart clip time :: Timeline.tailPart clip id time :: post).map f)) =
        mergeWith join? (laidFrom blank (fun _ c => [seen c]) 0 reached (pre ++ clip :: post)) := by
  have hlinks (lane : List (Clip Rat)) :
      laidFrom blank (fun _ c => [seen c]) 0 reached (lane.map f) =
        laidFrom blank (fun _ c => [seen c]) 0 reached lane := by
    refine laidFrom_congr (List.forall₂_map_left_iff.2 (List.forall₂_same.2 fun c _ => ?_))
    exact ⟨hf.start_eq c, hf.visibleDuration_eq c, by rw [hseen]⟩
  have hlast := (cuts_eq_true.1 hcuts).2
  rw [minClipDuration_eq] at hlast
  have hlong : 0 ≤ (Timeline.tailPart clip id time).visibleDuration := by
    rw [tailPart_length]
    linarith
  have hstart : (Timeline.headPart clip time).start = clip.start := rfl
  rw [hlinks]
  exact mergeWith_laidFrom_cut hj hstart (headPart_finish clip time).symm
    (tailPart_finish clip id time) hlong hjoin post pre

theorem mergeWith_outlineFrom_parts {id : String} (hcuts : Timeline.cuts clip time = true)
    (hf : Clip.Relinks f) (pre post : List (Clip Rat)) (reached : Rat) :
    mergeWith joinSeen? (outlineFrom reached
      ((pre ++ Timeline.headPart clip time :: Timeline.tailPart clip id time :: post).map f)) =
        mergeWith joinSeen? (outlineFrom reached (pre ++ clip :: post)) := by
  refine mergeWith_laidFrom_parts joinSeen?_coherent ?_ hcuts hf
    (fun c => by rw [hf.visibleDuration_eq]) pre post reached
  rw [headPart_length, tailPart_length, joinSeen?, Clip.finish]
  congr 2
  ring

end Parts

namespace Timeline

variable {t u : Timeline Rat} {ids rest : Ids} {clipId : String} {given : Option String} {time : Rat}
  {library : Library Rat} {settings : ExportSettings} {font : String} {c d : Compiled Rat}

/-! ## The lane around a cut -/

theorem Sound.least_le_of_visual (h : t.Sound) {c : Clip Rat} (hc : c ∈ t.visualClips) :
    minClipDuration ≤ c.visibleDuration := by
  obtain ⟨track, ht, hc⟩ := List.mem_flatMap.1 (t.visualClips_subset hc)
  exact ((h track ht).clips c hc).visible

/-- A cut puts the parts of a clip in its place in a lane without warnings. -/
theorem Sound.lane_splitClip (h : t.Sound) (hu : u.Sound) {lane others : List (Clip Rat)}
    {clip : Clip Rat} {id : String} {f : Clip Rat → Clip Rat} (hcuts : cuts clip time = true)
    (hlane : t.visualClips.Perm lane) (hwarn : overlapWarnings 0 lane = [])
    (hf : Clip.Relinks f) (hbefore : t.visualClips.Perm (clip :: others))
    (hafter : u.visualClips.Perm ((headPart clip time :: tailPart clip id time :: others).map f)) :
    ∃ pre post, lane = pre ++ clip :: post ∧ u.visualClips.mergeSort u.laneLe =
      (pre ++ headPart clip time :: tailPart clip id time :: post).map f := by
  have hlong : ∀ c ∈ lane, overlapTolerance ≤ c.visibleDuration := fun c hc => by
    have := h.least_le_of_visual (hlane.mem_iff.2 hc)
    rw [minClipDuration_eq] at this
    rw [overlapTolerance_eq]
    linarith
  obtain ⟨pre, post, rfl⟩ := List.append_of_mem
    (hlane.mem_iff.1 (hbefore.mem_iff.2 (List.mem_cons_self ..)))
  have hothers : others.Perm (pre ++ post) :=
    ((hbefore.symm.trans hlane).trans List.perm_middle).cons_inv
  have hperm : u.visualClips.Perm
      ((pre ++ headPart clip time :: tailPart clip id time :: post).map f) := by
    refine hafter.trans (List.Perm.map f ?_)
    exact ((hothers.cons _).cons _).trans
      (List.perm_middle.trans (List.perm_middle.cons _)).symm
  obtain ⟨hapart, hparts⟩ := parts_in_span hcuts id
  have hspaced : Spaced (pre ++ ([headPart clip time, tailPart clip id time] ++ post)) :=
    (spaced_of_unwarned hwarn hlong).1.recut (List.pairwise_pair.2 hapart)
      (fun b hb => ⟨(hparts b hb).1, (hparts b hb).2.1⟩) fun b hb => (hparts b hb).2.2
  refine ⟨pre, post, rfl, u.mergeSort_laneLe hperm ?_⟩
  rw [List.pairwise_map]
  refine hspaced.imp_of_mem fun {a b} ha _ hab => ?_
  have hlong := hu.least_le_of_visual (hperm.mem_iff.2 (List.mem_map_of_mem ha))
  rw [hf.visibleDuration_eq] at hlong
  rw [hf.start_eq, hf.start_eq]
  exact hab.start_lt hlong

/-- Transitions that have no effect on a lane have none after a cut, though one may go to the new
part. -/
theorem ineffective_of_rehomed {transitions : List (Transition Rat)} {pre post : List (Clip Rat)}
    {clip : Clip Rat} {id : String} {f : Clip Rat → Clip Rat}
    (hplain : ∀ x ∈ transitions, x.place? ((pre ++ clip :: post).map (·.id)) = none)
    (hnew : ∀ x ∈ transitions, x.clipId ≠ id) (hf : Clip.Relinks f) :
    ∀ x ∈ transitions.map (Transition.rehomed clip.id id), x.place?
      (((pre ++ headPart clip time :: tailPart clip id time :: post).map f).map (·.id)) = none := by
  have hids : ((pre ++ headPart clip time :: tailPart clip id time :: post).map f).map (·.id) =
      pre.map (·.id) ++ clip.id :: id :: post.map (·.id) := by
    simp [hf.id_eq, Function.comp_def, headPart, tailPart]
  intro y hy
  obtain ⟨x, hx, rfl⟩ := List.mem_map.1 hy
  have hplain := Transition.place?_eq_none.1 (hplain x hx)
  rw [List.map_append, List.map_cons] at hplain
  rw [hids, Transition.place?_eq_none]
  rcases x.rehomed_cases clip.id id with he | ⟨hid, -, he⟩ <;> rw [he]
  · refine hplain.imp_right fun hnot hin => hnot ?_
    simpa [hnew x hx] using hin
  · exact .inl (hplain.resolve_right fun hnot => hnot (by simp [hid]))

/-! ## The export around a cut -/

/-- A timeline compiles that shows something, if it asks for no media but those of one that does. -/
theorem Homed.compiles_of_media (h : t.Homed) (hu : u.Homed)
    (hmedia : ∀ d ∈ u.lookedUp, ∃ c ∈ t.lookedUp, d.mediaId = c.mediaId)
    (hseen : u.visualClips ≠ []) (hc : compile t library settings font = .ok c) :
    ∃ d, compile u library settings font = .ok d := by
  obtain ⟨-, -, hok, -⟩ := compile_outcome h library settings font
  obtain ⟨-, -, huok, -⟩ := compile_outcome hu library settings font
  have hfound := (hok.1 ⟨c, hc⟩).1
  refine huok.2 ⟨?_, hseen, u.measurable_rat ..⟩
  rw [firstMissing?, List.find?_eq_none] at hfound ⊢
  intro d hd
  obtain ⟨c, hc, he⟩ := hmedia d hd
  rw [he]
  exact hfound c hc

/-- Exports of two lanes one of which has the parts of a clip in its place. -/
theorem exports_alike (hl : t.Linked) (hul : u.Linked) {pre post : List (Clip Rat)} {clip : Clip Rat}
    {id : String} {f : Clip Rat → Clip Rat} (hcuts : cuts clip time = true) (hf : Clip.Relinks f)
    (hlane : t.lane = .ok (pre ++ clip :: post)) (hulane : u.lane =
      .ok ((pre ++ headPart clip time :: tailPart clip id time :: post).map f))
    (hplain : ∀ x ∈ t.transitions, x.place? ((pre ++ clip :: post).map (·.id)) = none)
    (huplain : ∀ x ∈ u.transitions, x.place?
      (((pre ++ headPart clip time :: tailPart clip id time :: post).map f).map (·.id)) = none)
    (hc : compile t library settings font = .ok c) (hd : compile u library settings font = .ok d) :
    d.outline = c.outline ∧ d.duration = c.duration ∧
      mergeWith Shot.join? (d.shots u) = mergeWith Shot.join? (c.shots t) := by
  obtain ⟨houtline, hduration⟩ := compile_outline hlane hplain hc
  obtain ⟨huoutline, huduration⟩ := compile_outline hulane huplain hd
  obtain ⟨_, hlane', hshots⟩ := compile_shots hl hc
  cases hlane.symm.trans hlane'
  obtain ⟨_, hulane', hushots⟩ := compile_shots hul hd
  cases hulane.symm.trans hulane'
  have hsame : d.outline = c.outline := by
    rw [huoutline, houtline, mergeWith_outlineFrom_parts hcuts hf]
  refine ⟨hsame, by rw [huduration, hduration, hsame], ?_⟩
  rw [hushots, hshots]
  refine mergeWith_laidFrom_parts Shot.join?_coherent (join?_shot_parts ..) hcuts hf (fun c => ?_) ..
  obtain ⟨_, _, _, he⟩ := hf c
  rw [he]
  rfl

/-- **Cutting a clip does not show.** Where no transition has an effect and no clip of the lane is
warned of, a timeline that compiles does so after a clip of the lane is cut. The parts of its
picture, gaps and others, are as long as they were, and so is the whole; and it plays the same shots,
those of one medium joined that go on one after the other. -/
theorem Reachable.splitClip_plays_same (h : t.Reachable)
    (hc : compile t library settings font = .ok c) (hwarn : c.warnings = [])
    (hplain : ∀ x ∈ t.transitions, x.kind = .none ∨ x.clipId ∉ t.visualClips.map (·.id))
    (hvisual : clipId ∈ t.visualClips.map (·.id))
    (hnew : (Edit.splitClip clipId time given).GivesNew t) (hfresh : Ids.Fresh ids rest t.names)
    (hr : (Edit.splitClip clipId time given).apply t ids = .ok (u, rest)) :
    ∃ d, compile u library settings font = .ok d ∧ d.outline = c.outline ∧
      d.duration = c.duration ∧
      mergeWith Shot.join? (d.shots u) = mergeWith Shot.join? (c.shots t) := by
  have hureach : u.Reachable := h.step _ hnew hfresh hr
  rw [Edit.apply_eq_run] at hr
  have hsplit := Except.ok.inj hr
  rcases h.sound.visualClips_splitClip h.linked hvisual hsplit with
    rfl | ⟨rfl, clip, rfl, hcuts, htransitions, f, others, hf, hbefore, hafter⟩
  · exact ⟨c, hc, rfl, rfl, rfl⟩
  have hseen : u.visualClips ≠ [] := fun hnil => by
    rw [hnil] at hafter
    exact List.cons_ne_nil _ _ hafter.nil_eq.symm
  obtain ⟨d, hd⟩ := h.homed.compiles_of_media hureach.homed
    (h.sound.media_splitClip h.linked hsplit) hseen hc
  -- The two lanes.
  have hlane := h.homed.lane_eq
  have hperm := (List.mergeSort_perm t.visualClips t.laneLe).symm
  rw [compile_warnings hc hlane, Scalar.zero_eq] at hwarn
  obtain ⟨pre, post, hpre, hulane⟩ :=
    h.sound.lane_splitClip hureach.sound hcuts hperm hwarn hf hbefore hafter
  rw [hpre] at hlane hperm
  -- No transition has an effect on either of them.
  have hplain : ∀ x ∈ t.transitions, x.place? ((pre ++ clip :: post).map (·.id)) = none :=
    fun x hx => Transition.place?_eq_none.2 <| (hplain x hx).imp_right fun hnot hin =>
      hnot ((hperm.map _).mem_iff.2 hin)
  have hid : ∀ x ∈ t.transitions, x.clipId ≠ (ids.choose given).1 := fun x hx he =>
    (hfresh.of_subset t.clipIds_subset_names).choose hnew (he ▸ h.attached.transitions x hx)
  exact ⟨d, hd, exports_alike h.linked hureach.linked hcuts hf hlane
    (hureach.homed.lane_eq.trans (congrArg Except.ok hulane)) hplain
    (htransitions ▸ ineffective_of_rehomed hplain hid hf) hc hd⟩

/-- The rough cut with a gap between its video clips, and a transition at its audio clip. -/
def airyCut : Timeline Rat :=
  (roughCut.setTransition "c" .dissolve 1 .start .start).1.after (.moveClip "b" "v" 6)

theorem airyCut_reachable : airyCut.Reachable := by
  have h : (roughCut.setTransition "c" .dissolve 1 .start .start).1.Reachable :=
    roughCut_reachable.issuing (.setTransition "c" .dissolve 1 .start) trivial (by cbv)
      (congrArg Except.ok (Prod.ext rfl (by cbv)))
  exact h.after (.moveClip "b" "v" 6) trivial (by cbv)

theorem airyCut_ineffective : ∀ x ∈ airyCut.transitions, x.clipId ∉ ["a", "b"] := by
  have hids : airyCut.transitions.map (·.clipId) = ["c"] := by cbv
  intro x hx
  have hid : x.clipId ∈ airyCut.transitions.map (·.clipId) := List.mem_map_of_mem hx
  rw [hids, List.mem_singleton] at hid
  simp [hid]

/-- It has two parts that are seen, a gap between them, and nothing to warn of. -/
theorem airyCut_compiled : ∃ c, compile airyCut ⟨[take .video]⟩ .default "font" = .ok c ∧
    c.warnings = [] ∧ c.outline = [(false, 4), (true, 2), (false, 4)] := by
  have hfound : (firstMissing? ⟨[take .video]⟩ airyCut.lookedUp).isNone = true := by cbv
  have hseen : airyCut.visualClips.isEmpty = false := by cbv
  have hlane : airyCut.lane.map (fun lane => (overlapWarnings 0.0 lane, lane.map (·.id),
      mergeWith joinSeen? (outlineFrom 0 lane))) =
        .ok ([], ["a", "b"], [(false, 4), (true, 2), (false, 4)]) := by cbv
  obtain ⟨lane, hlane, hparts⟩ := map_eq_ok.1 hlane
  simp only [Prod.mk.injEq] at hparts
  obtain ⟨hwarn, hids, houtline⟩ := hparts
  obtain ⟨c, hc⟩ :=
    (compile_outcome airyCut_reachable.homed ⟨[take .video]⟩ .default "font").2.2.1.2
      ⟨Option.isNone_iff_eq_none.1 hfound, by simpa using hseen, measurable_rat ..⟩
  have hplain : ∀ x ∈ airyCut.transitions, x.place? (lane.map (·.id)) = none := fun x hx => by
    rw [hids]
    exact Transition.place?_eq_none.2 (.inr (airyCut_ineffective x hx))
  exact ⟨c, hc, (compile_warnings hc hlane).trans hwarn,
    (compile_outline hlane hplain hc).1.trans houtline⟩

/-- The airy cut with its first clip cut in two. -/
def halvedCut : Timeline Rat := airyCut.after (.splitClip "a" 2 (some "d"))

theorem halvedCut_plays_same : ∃ c d,
    compile airyCut ⟨[take .video]⟩ .default "font" = .ok c ∧ c.warnings = [] ∧
    c.outline = [(false, 4), (true, 2), (false, 4)] ∧
    compile halvedCut ⟨[take .video]⟩ .default "font" = .ok d ∧
    d.shots halvedCut = [.moving "m" 0 2, .moving "m" 2 2, .blank 2, .moving "m" 0 4] ∧
    d.outline = c.outline ∧ d.duration = c.duration ∧
    mergeWith Shot.join? (d.shots halvedCut) = mergeWith Shot.join? (c.shots airyCut) := by
  have hids : airyCut.visualClips.map (·.id) = ["a", "b"] := by cbv
  have hnew : (Edit.splitClip "a" 2 (some "d")).GivesNew airyCut := by
    rintro _ ⟨⟩
    exact not_mem_of_contains (by cbv)
  have hr : (Edit.splitClip "a" 2 (some "d")).apply airyCut .start = .ok (halvedCut, .start) :=
    (Edit.apply_eq_run ..).trans (congrArg Except.ok (Prod.ext rfl (by cbv)))
  have hfresh : Ids.Fresh .start .start airyCut.names := fun _ hle hlt => absurd hlt (not_lt.2 hle)
  have hlane : halvedCut.lane.map (fun lane =>
      (laidFrom (fun d => [.blank d]) (fun _ clip => [clip.shot]) 0 0.0 lane : List (Shot Rat))) =
        .ok [.moving "m" 0 2, .moving "m" 2 2, .blank 2, .moving "m" 0 4] := by cbv
  obtain ⟨lane, hlane, hwalk⟩ := map_eq_ok.1 hlane
  obtain ⟨c, hc, hwarn, houtline⟩ := airyCut_compiled
  obtain ⟨d, hd, hsame, hduration, hplays⟩ := airyCut_reachable.splitClip_plays_same hc hwarn
    (fun x hx => .inr (hids ▸ airyCut_ineffective x hx)) (by simp [hids]) hnew hfresh hr
  obtain ⟨_, hlane', hshots⟩ := compile_shots (airyCut_reachable.step _ hnew hfresh hr).linked hd
  cases hlane.symm.trans hlane'
  exact ⟨c, d, hc, hwarn, houtline, hd, hshots.trans hwalk, hsame, hduration, hplays⟩

end Timeline

end Montage
