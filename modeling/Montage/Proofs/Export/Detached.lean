/-
The sound of a clip that is detached from it, in an export.

The node of a clip's own sound and the node that plays its detached clip are made apart. The first is
silent if the clip is muted, or its track, or if its medium has no sound, and whatever the
clip is linked to (`Timeline.Reachable.own_sound`). The second has one filter that delays it
(`Node.DelaysBy`), to where its clip starts on the timeline, which is later than the picture by what
the cross-fades up to it have taken (`Timeline.Reachable.detached_delay`).
-/
import Montage.Proofs.Edit.Attached
import Montage.Proofs.Edit.Sound
import Montage.Proofs.Export.Clock
import Montage.Proofs.Export.Leaves
import Montage.Proofs.Export.Outcomes
import Montage.Proofs.Rounding

namespace Montage

variable {α : Type} [Scalar α]

/-- Whether a node plays the audio clip of an id. -/
def Compiled.Plays (c : Compiled α) (id : String) (n : Node (Filter α)) : Prop :=
  n ∈ c.graph.nodes ∧ n.op = "audio_track" ∧
    ∃ i : Nat, n.inputs = [.source i .audio] ∧ (c.inputs[i]?).map (·.clipId) = some id

/-- Whether a node is that of a lane clip's own sound. -/
def Node.isLaneSound {φ : Type} (n : Node φ) : Bool := n.op == "clip" && n.stream == .audio

/-- The nodes of the own sounds of the lane's clips, in order. -/
def Compiled.laneSounds (c : Compiled α) : List (Node (Filter α)) :=
  c.graph.nodes.filter Node.isLaneSound

/-- Whether a filter delays a sound. -/
def Filter.isDelay : Filter α → Bool
  | .delay _ => true
  | _ => false

/-- Whether a filter that is written delays a sound. -/
def isDelayText (text : String) : Bool := decide ("adelay=".toList <+: text.toList)

/-- A node that delays what it plays by some milliseconds, in all channels and with one filter. -/
structure Node.DelaysBy (n : Node (Filter α)) (milliseconds : Int) : Prop where
  filters : n.filters.filter Filter.isDelay = [.delay milliseconds]
  texts : (n.filters.map Filter.text).filter isDelayText =
    ["adelay=delays=" ++ toString milliseconds ++ ":all=1"]

variable {t : Timeline α} {library : Library α} {settings : ExportSettings} {font : String}
  {c : Compiled α}

/-! ## Which node is whose -/

section Nodes

variable {s : Scene α} {lane : List (Clip α)} {grouping : Grouping α}

/-- The sounds among the nodes of the lane are those of its clips, in order. -/
theorem Scene.filter_laneNodes (d : Clip α) (indices : List Nat) (h : ∀ i ∈ indices, i < lane.length) :
    ((indices.flatMap (s.laneNodes lane grouping)).filter Node.isLaneSound) =
      indices.map fun i => s.soundNode i (lane.getD i d) (grouping.fadesOf i) := by
  induction indices with
  | nil => rfl
  | cons i indices ih =>
    obtain ⟨hi, hrest⟩ := List.forall_mem_cons.1 h
    rw [List.flatMap_cons, List.filter_append, ih hrest, List.map_cons]
    have hsound : (s.soundNode i lane[i] (grouping.fadesOf i)).isLaneSound = true := by
      unfold soundNode
      split <;> rfl
    have hpicture : (s.pictureNode i lane[i] (grouping.fadesOf i)).isLaneSound = false := rfl
    simp [laneNodes, hi, hsound, hpicture]

end Nodes

omit [Scalar α] in
theorem laneSounds_eq (c : Compiled α) :
    c.laneSounds = c.graph.leaves.filter Node.isLaneSound := by
  rw [Compiled.laneSounds, Graph.leaves, List.filter_filter]
  refine List.filter_congr fun n _ => ?_
  cases hop : n.op == "clip" <;> simp [Node.isLaneSound, Node.isLeaf, hop]

theorem mem_audible {total : Rat} {clips : List (Clip Rat)} {a : Clip Rat} :
    a ∈ Scene.audible total clips ↔ a ∈ clips ∧ a.start < total := by
  simp [Scene.audible]

theorem mem_allClips_of_heard {a : Clip α} (ha : a ∈ t.heardClips) : a ∈ t.allClips := by
  obtain ⟨track, htrack, hc⟩ := List.mem_flatMap.1 ((sortByStart_perm _).mem_iff.1 ha)
  exact Timeline.mem_allClips (List.mem_of_mem_filter htrack) hc

/-- The filters of an audio clip, as they are written. -/
theorem Scene.map_text_trackFilters (clip : Clip α) (gain : α) (milliseconds : Int) :
    (trackFilters clip gain milliseconds ++ normalAudio).map Filter.text =
      ["atrim=start=" ++ compact clip.trimIn ++ ":duration=" ++ compact clip.visibleDuration,
        "asetpts=PTS-STARTPTS"] ++ (if gain == 1.0 then [] else ["volume=" ++ compact gain]) ++
        ["adelay=delays=" ++ toString milliseconds ++ ":all=1",
          "aformat=sample_rates=48000:channel_layouts=stereo"] := by
  unfold trackFilters volumeFilters
  split <;> rfl

/-- One filter of an audio clip delays it. -/
theorem Scene.trackNode_delaysBy (s : Scene α) (p : Clip α × Nat) :
    (s.trackNode p).DelaysBy (delayOf p.1) := by
  constructor
  case filters =>
    unfold trackNode trackFilters volumeFilters
    split <;> rfl
  case texts =>
    show ((trackFilters p.1 (s.gainOf p.1) (delayOf p.1) ++ normalAudio).map Filter.text).filter
      isDelayText = _
    rw [map_text_trackFilters]
    split <;> simp [isDelayText]

/-- The node that plays an audio clip is made from one of that id that is heard. -/
theorem exists_of_plays (h : compile t library settings font = .ok c) {id : String}
    {n : Node (Filter α)} (hn : c.Plays id n) :
    ∃ a ∈ Scene.audible c.duration t.heardClips, a.id = id ∧
      ∃ i, n = (Scene.ofSettings t library settings).trackNode (a, i) := by
  obtain ⟨lane, -, -, hinputs, hleaves⟩ := compile_leaves h
  obtain ⟨hmem, hop, i, hi, hid⟩ := hn
  have hleaf : n ∈ c.graph.leaves := List.mem_filter.2 ⟨hmem, by simp [Node.isLeaf, hop]⟩
  rw [hleaves, List.mem_append] at hleaf
  rcases hleaf with hlane | htrack
  · obtain ⟨j, -, hj⟩ := List.mem_flatMap.1 hlane
    rw [Scene.op_of_mem_laneNodes hj] at hop
    simp at hop
  · obtain ⟨⟨a, j⟩, ha, rfl⟩ := List.mem_map.1 htrack
    obtain ⟨hle, hget⟩ := List.mk_mem_zipIdx_iff_le_and_getElem?_sub.1 ha
    have hij : j = i := by simpa [Scene.trackNode] using hi
    subst hij
    rw [hinputs, List.getElem?_append_right (by simpa using hle)] at hid
    simp [hget, Scene.input] at hid
    exact ⟨a, List.mem_of_getElem? hget, hid, j, rfl⟩

/-- The node that plays an audio clip of a linked timeline delays it by the start of that clip. -/
theorem Timeline.Linked.delaysBy_of_plays (hl : t.Linked) (h : compile t library settings font = .ok c)
    {a : Clip α} (ha : a ∈ t.heardClips) {n : Node (Filter α)} (hn : c.Plays a.id n) :
    n.DelaysBy (Scene.delayOf a) := by
  obtain ⟨b, hb, hid, i, rfl⟩ := exists_of_plays h hn
  obtain rfl : b = a := List.inj_on_of_nodup_map hl.clipIds
    (mem_allClips_of_heard (List.mem_of_mem_filter hb)) (mem_allClips_of_heard ha) hid
  exact Scene.trackNode_delaysBy ..

/-- Every audio clip that is heard is played. -/
theorem exists_plays (h : compile t library settings font = .ok c) {a : Clip α}
    (ha : a ∈ Scene.audible c.duration t.heardClips) : ∃ n, c.Plays a.id n := by
  obtain ⟨lane, -, -, hinputs, hleaves⟩ := compile_leaves h
  obtain ⟨k, hk⟩ := List.mem_iff_getElem?.1 ha
  have hpair : (a, lane.length + k) ∈
      (Scene.audible c.duration t.heardClips).zipIdx lane.length := by
    rw [List.mk_mem_zipIdx_iff_le_and_getElem?_sub]
    exact ⟨Nat.le_add_right .., by rwa [Nat.add_sub_cancel_left]⟩
  have hleaf : (Scene.ofSettings t library settings).trackNode (a, lane.length + k) ∈
      c.graph.leaves := by
    rw [hleaves]
    exact List.mem_append_right _ (List.mem_map_of_mem hpair)
  refine ⟨_, List.mem_of_mem_filter hleaf, rfl, lane.length + k, rfl, ?_⟩
  rw [hinputs, List.getElem?_append_right (by simp)]
  simp [hk, Scene.input]

/-- The clip of the lane with an index has the sound with that index. -/
theorem compile_laneSounds (h : compile t library settings font = .ok c) :
    ∃ lane, t.lane = .ok lane ∧ ∀ (k : Nat) (v : Clip α), lane[k]? = some v →
      (c.inputs[k]?).map (·.clipId) = some v.id ∧
      c.laneSounds[k]? = some ((Scene.ofSettings t library settings).soundNode k v
        ((t.grouping lane).fadesOf k)) := by
  obtain ⟨lane, hlane, -, hinputs, hleaves⟩ := compile_leaves h
  refine ⟨lane, hlane, fun k v hv => ?_⟩
  obtain ⟨hk, rfl⟩ := List.getElem?_eq_some_iff.1 hv
  constructor
  · rw [hinputs, List.getElem?_append_left (by simpa using hk)]
    simp [hv, Scene.input]
  · have htracks : (((Scene.audible c.duration t.heardClips).zipIdx lane.length).map
        (Scene.ofSettings t library settings).trackNode).filter Node.isLaneSound = [] :=
      List.filter_eq_nil_iff.2 fun n hn => by
        obtain ⟨p, -, rfl⟩ := List.mem_map.1 hn
        exact Bool.false_ne_true
    rw [laneSounds_eq, hleaves, List.filter_append, htracks, List.append_nil,
      Scene.filter_laneNodes lane[k] _ fun i hi => List.mem_range.1 hi]
    simp [hk]

/-! ## A cut with a detached sound -/

namespace Timeline

/-- Whether a clip of the lane is silent: it is muted, or its track, or its medium has no sound. -/
def Silences (t : Timeline α) (library : Library α) (v : Clip α) : Prop :=
  v.audioMuted = true ∨ (∃ track ∈ t.tracks, track.id = v.trackId ∧ track.muted = true) ∨
    ¬ ∃ asset, library.get? v.mediaId = some asset ∧ asset.hasAudio = true

/-- An audio clip that is heard is the detached sound of the lane's video clip with an index. -/
structure Dubbed (t : Timeline α) (lane : List (Clip α)) (k : Nat) (v a : Clip α) : Prop where
  lane : lane[k]? = some v
  video : v.kind = .video
  heard : a ∈ t.heardClips
  forth : v.detachedAudio = some a.id
  back : a.linkedVideo = some v.id

/-- The cut with a cross-fade between its video clips, and the sound of the second one detached. -/
def dubbedCut : Timeline Rat :=
  (roughCut.setTransition "b" .dissolve 1 .start .start).1.after (.detachAudio "b" (some "e"))

theorem dubbedCut_reachable : dubbedCut.Reachable := by
  have h : (roughCut.setTransition "b" .dissolve 1 .start .start).1.Reachable :=
    roughCut_reachable.issuing (.setTransition "b" .dissolve 1 .start) trivial (by cbv)
      (congrArg Except.ok (Prod.ext rfl (by cbv)))
  exact h.after (.detachAudio "b" (some "e")) (by rintro _ ⟨⟩; exact not_mem_of_contains (by cbv))
    (by cbv)

/-- Its second video clip is not silent, and is played together with its detached sound. -/
theorem dubbedCut_compiled : ∃ c lane v a,
    compile dubbedCut ⟨[take .video]⟩ .default "font" = .ok c ∧ c.warnings = [] ∧
    dubbedCut.lane = .ok lane ∧ dubbedCut.Dubbed lane 1 v a ∧
    ¬ dubbedCut.Silences ⟨[take .video]⟩ v ∧ a.start = v.start ∧ v.start = 4 ∧
    a.start < c.duration ∧ ∃ n, c.Plays a.id n := by
  have hfound : (firstMissing? ⟨[take .video]⟩ dubbedCut.lookedUp).isNone = true := by cbv
  have hseen : dubbedCut.visualClips.isEmpty = false := by cbv
  have hunmuted : dubbedCut.tracks.any (·.muted) = false := by cbv
  have hlane : dubbedCut.lane.map (fun lane => (overlapWarnings 0.0 lane,
      (dubbedCut.grouping lane).duration, (lane[1]?).map fun v =>
        (v.id, v.kind, v.mediaId, v.audioMuted, v.detachedAudio, v.start))) =
      .ok ([], 7, some ("b", .video, "m", false, some "e", 4)) := by cbv
  have hheard : (dubbedCut.heardClips[1]?).map (fun a => (a.id, a.linkedVideo, a.start)) =
      some ("e", some "b", 4) := by cbv
  obtain ⟨lane, hlane, hparts⟩ := map_eq_ok.1 hlane
  simp only [Prod.mk.injEq, Option.map_eq_some_iff] at hparts hheard
  obtain ⟨hwarn, hlength, v, hv, hvid, hvideo, hmedium, hloud, hforth, hstart⟩ := hparts
  obtain ⟨a, ha, haid, hback, hsound⟩ := hheard
  have ha := List.mem_of_getElem? ha
  obtain ⟨c, hc⟩ := (compile_outcome dubbedCut_reachable.homed ⟨[take .video]⟩ .default "font").2.2.1.2
    ⟨Option.isNone_iff_eq_none.1 hfound, by simpa using hseen, measurable_rat ..⟩
  obtain ⟨lane', hlane', hduration, -⟩ := compile_leaves hc
  cases hlane.symm.trans hlane'
  have htime : a.start < c.duration := by
    rw [hsound, hduration, hlength]
    norm_num
  have hnot : ¬ dubbedCut.Silences ⟨[take .video]⟩ v := by
    rintro (hmuted | ⟨track, htrack, -, hmuted⟩ | hnone)
    · exact Bool.false_ne_true (hloud.symm.trans hmuted)
    · exact List.any_eq_false.1 hunmuted track htrack hmuted
    · exact hnone ⟨take .video, by rw [hmedium]; rfl, rfl⟩
  exact ⟨c, lane, v, a, hc, (compile_warnings hc hlane).trans hwarn, hlane,
    ⟨hv, hvideo, ha, hforth.trans (congrArg some haid.symm), hback.trans (congrArg some hvid.symm)⟩,
    hnot, hsound.trans hstart.symm, hstart, htime, exists_plays hc (mem_audible.2 ⟨ha, htime⟩)⟩

/-! ## The sound of the lane -/

omit [Scalar α] in
theorem Linked.lastTrack?_eq (h : t.Linked) {track : Track α} (ht : track ∈ t.tracks) {id : String}
    (hid : track.id = id) : t.lastTrack? id = some track := by
  refine find?_key_eq_some ?_ (List.mem_reverse.2 ht) hid
  rw [List.map_reverse, List.nodup_reverse]
  exact h.trackIds

omit [Scalar α] in
theorem Linked.lastTrack?_muted (h : t.Linked) (id : String) :
    (t.lastTrack? id).any (·.muted) = true ↔ ∃ track ∈ t.tracks, track.id = id ∧ track.muted = true := by
  rw [Option.any_eq_true]
  constructor
  · rintro ⟨track, htrack, hmuted⟩
    have hid := List.find?_some htrack
    exact ⟨track, List.mem_reverse.1 (List.mem_of_find?_eq_some htrack), by simpa using hid, hmuted⟩
  · rintro ⟨track, ht, hid, hmuted⟩
    exact ⟨track, h.lastTrack?_eq ht hid, hmuted⟩

omit [Scalar α] in
variable (settings) in
theorem Linked.isSilent_iff (h : t.Linked) {v : Clip α} (hv : v.kind = .video) :
    (Scene.ofSettings t library settings).isSilent v = true ↔ t.Silences library v := by
  have hkind : (v.kind == .image) = false := by
    rw [hv]
    rfl
  have hmedium : (library.get? v.mediaId).any (·.hasAudio) = true ↔
      ∃ asset, library.get? v.mediaId = some asset ∧ asset.hasAudio = true := Option.any_eq_true ..
  rw [Silences, ← h.lastTrack?_muted, ← hmedium]
  simp [Scene.isSilent, Scene.ofSettings, hkind, or_assoc]

/-- **Whether a clip is silent in the lane does not depend on its links.** Where the detached sound of
a video clip is played, the clip's own sound is silent just when the clip is muted, or its track,
or its medium has no sound; otherwise it is played as well, by a node of its own. -/
theorem Reachable.own_sound (ht : t.Reachable) (h : compile t library settings font = .ok c) :
    ∃ lane, t.lane = .ok lane ∧ ∀ (k : Nat) (v : Clip α), lane[k]? = some v → v.kind = .video →
      ∀ id, v.detachedAudio = some id → ∀ n, c.Plays id n →
        (c.inputs[k]?).map (·.clipId) = some v.id ∧
        ∃ sound, c.laneSounds[k]? = some sound ∧ sound ≠ n ∧
          (sound.inputs = [] ↔ t.Silences library v) ∧
          (¬ t.Silences library v → sound.inputs = [.source k .audio]) := by
  obtain ⟨lane, hlane, hsounds⟩ := compile_laneSounds h
  refine ⟨lane, hlane, fun k v hv hvideo id _ n hn => ?_⟩
  obtain ⟨hinput, hsound⟩ := hsounds k v hv
  refine ⟨hinput, _, hsound, fun he => ?_, ?_⟩
  · have hop := (List.mem_filter.1 (List.mem_of_getElem? hsound)).2
    simp [he, Node.isLaneSound, hn.2.1] at hop
  · rw [← ht.linked.isSilent_iff settings hvideo, Scene.soundNode]
    split
    · next hs => simp [hs]
    · next hs => simp [hs]

theorem dubbedCut_own_sound : ∃ c lane v a n,
    compile dubbedCut ⟨[take .video]⟩ .default "font" = .ok c ∧ dubbedCut.lane = .ok lane ∧
    dubbedCut.Dubbed lane 1 v a ∧ c.Plays a.id n ∧ (c.inputs[1]?).map (·.clipId) = some v.id ∧
    ∃ sound, c.laneSounds[1]? = some sound ∧
      (sound.inputs = [] ↔ dubbedCut.Silences ⟨[take .video]⟩ v) := by
  obtain ⟨c, lane, v, a, hc, -, hlane, hdubbed, -, -, -, -, n, hn⟩ := dubbedCut_compiled
  obtain ⟨lane', hlane', hsounds⟩ := dubbedCut_reachable.own_sound hc
  cases hlane.symm.trans hlane'
  obtain ⟨hinput, sound, hsound, -, hsilent, -⟩ :=
    hsounds 1 v hdubbed.lane hdubbed.video a.id hdubbed.forth n hn
  exact ⟨c, lane, v, a, n, hc, hlane, hdubbed, hn, hinput, sound, hsound, hsilent⟩

/-- The sound of its second clip is heard twice, once from each of its nodes. -/
theorem dubbedCut_heard_twice : dubbedCut.Reachable ∧
    ∃ c lane v a, compile dubbedCut ⟨[take .video]⟩ .default "font" = .ok c ∧
      dubbedCut.lane = .ok lane ∧ dubbedCut.Dubbed lane 1 v a ∧ (∃ n, c.Plays a.id n) ∧
      ∃ sound, c.laneSounds[1]? = some sound ∧ sound.inputs = [.source 1 .audio] := by
  obtain ⟨c, lane, v, a, hc, -, hlane, hdubbed, hloud, -, -, -, hplays⟩ := dubbedCut_compiled
  obtain ⟨lane', hlane', hsounds⟩ := compile_laneSounds hc
  cases hlane.symm.trans hlane'
  refine ⟨dubbedCut_reachable, c, lane, v, a, hc, hlane, hdubbed, hplays, _,
    (hsounds 1 v hdubbed.lane).2, ?_⟩
  rw [← dubbedCut_reachable.linked.isSilent_iff .default hdubbed.video, Bool.not_eq_true] at hloud
  rw [Scene.soundNode, hloud]
  rfl

end Timeline

/-! ## The delay of a detached sound -/

theorem Scene.delayOf_eq (a : Clip Rat) : Scene.delayOf a = halfEven (a.start * 1000.0) := rfl

/-- The delay of an audio clip is its start to within a millisecond. -/
theorem Scene.delayOf_near (a : Clip Rat) : |(Scene.delayOf a : Rat) / 1000 - a.start| ≤ 1 / 1000 := by
  have hthousand : (1000.0 : Rat) = 1000 := by norm_num
  have hnear := abs_halfEven_sub_le (a.start * 1000)
  rw [delayOf_eq, hthousand]
  rw [abs_le] at hnear ⊢
  constructor <;> linarith

namespace Timeline

variable {t : Timeline Rat} {library : Library Rat} {c : Compiled Rat}

/-- **A detached sound is late by the cross-fades.** Where nothing is warned of, an audio clip that
starts with a clip of the lane is delayed to the time at which that clip begins in the
picture and what the cross-fades up to it have taken, but for a millisecond and the least gap a clip. -/
theorem Reachable.detached_delay (ht : t.Reachable) (h : compile t library settings font = .ok c)
    (hwarn : c.warnings = []) :
    ∃ lane, t.lane = .ok lane ∧ ∀ (k : Nat) (v a : Clip Rat), t.Dubbed lane k v a →
      a.start = v.start → a.start < c.duration →
      ∃ m, (t.grouping lane).marks[k]? = some m ∧ m.clip = k ∧ (∃ n, c.Plays a.id n) ∧
        ∀ n, c.Plays a.id n → ∃ ms, n.DelaysBy ms ∧
          |(ms : Rat) / 1000 - (m.beginning + (t.grouping lane).fadedBy k)| ≤
            1 / 1000 + (k + 1) * gapTolerance := by
  obtain ⟨lane, hlane, -⟩ := compile_leaves h
  have hlong : ∀ v ∈ lane, minClipDuration ≤ v.visibleDuration := fun v hv => by
    obtain ⟨track, htrack, hclip⟩ := List.mem_flatMap.1 (mem_allClips_of_lane hlane hv)
    exact ((ht.sound track htrack).clips v hclip).visible
  have hunwarned : overlapWarnings 0 lane = [] := by
    rw [← Scalar.zero_eq, ← compile_warnings h hlane, hwarn]
  obtain ⟨hlength, hnear⟩ := start_near_mark t.transitions hunwarned hlong
  refine ⟨lane, hlane, fun k v a hdubbed hstart htime => ?_⟩
  have hk : k < (t.grouping lane).marks.length := by
    rw [Timeline.grouping, hlength]
    exact (List.getElem?_eq_some_iff.1 hdubbed.lane).1
  have hm := List.getElem?_eq_getElem hk
  obtain ⟨hclip, hclock⟩ := hnear k v _ hdubbed.lane hm
  refine ⟨_, hm, hclip, exists_plays h (mem_audible.2 ⟨hdubbed.heard, htime⟩), fun n hn => ?_⟩
  refine ⟨Scene.delayOf a, ht.linked.delaysBy_of_plays h hdubbed.heard hn, ?_⟩
  have hdelay := Scene.delayOf_near a
  rw [hstart] at hdelay
  rw [← Timeline.grouping] at hclock
  rw [abs_le] at hdelay hclock ⊢
  constructor <;> linarith

theorem dubbedCut_delay : ∃ c lane v a, compile dubbedCut ⟨[take .video]⟩ .default "font" = .ok c ∧
    c.warnings = [] ∧ dubbedCut.lane = .ok lane ∧ dubbedCut.Dubbed lane 1 v a ∧
    a.start = v.start ∧ a.start < c.duration ∧
    ∃ m, (dubbedCut.grouping lane).marks[1]? = some m ∧
      ∃ n ms, c.Plays a.id n ∧ n.DelaysBy ms ∧
        |(ms : Rat) / 1000 - (m.beginning + (dubbedCut.grouping lane).fadedBy 1)| ≤
          1 / 1000 + 2 * gapTolerance := by
  obtain ⟨c, lane, v, a, hc, hwarn, hlane, hdubbed, -, hstart, -, htime, n, hn⟩ := dubbedCut_compiled
  obtain ⟨lane', hlane', hdelay⟩ := dubbedCut_reachable.detached_delay hc hwarn
  cases hlane.symm.trans hlane'
  obtain ⟨m, hm, -, -, hplayed⟩ := hdelay 1 v a hdubbed hstart htime
  obtain ⟨ms, hms, hnear⟩ := hplayed n hn
  refine ⟨c, lane, v, a, hc, hwarn, hlane, hdubbed, hstart, htime, m, hm, n, ms, hn, hms,
    hnear.trans_eq ?_⟩
  norm_num

/-- The sound of its second clip is delayed by four seconds; the clip begins after three. -/
theorem dubbedCut_late : dubbedCut.Reachable ∧
    ∃ c lane v a, compile dubbedCut ⟨[take .video]⟩ .default "font" = .ok c ∧ c.warnings = [] ∧
      dubbedCut.lane = .ok lane ∧ dubbedCut.Dubbed lane 1 v a ∧ a.start = v.start ∧
      a.start < c.duration ∧
      ∃ m, (dubbedCut.grouping lane).marks[1]? = some m ∧ m.clip = 1 ∧ m.beginning = 3 ∧
        ∃ n, c.Plays a.id n ∧ n.DelaysBy 4000 ∧
          1 / 1000 + 2 * gapTolerance < |(4000 : Rat) / 1000 - m.beginning| := by
  obtain ⟨c, lane, v, a, hc, hwarn, hlane, hdubbed, -, hstart, hfour, htime, n, hn⟩ :=
    dubbedCut_compiled
  have hmarks : dubbedCut.lane.map (fun lane =>
      ((dubbedCut.grouping lane).marks[1]?).map fun m => (m.clip, m.beginning)) =
        .ok (some (1, 3)) := by cbv
  rw [hlane] at hmarks
  obtain ⟨m, hm, hbegins⟩ := Option.map_eq_some_iff.1 (Except.ok.inj hmarks)
  obtain ⟨hclip, hthree⟩ := Prod.mk.inj hbegins
  have hdelays := dubbedCut_reachable.linked.delaysBy_of_plays hc hdubbed.heard hn
  have hdelay : Scene.delayOf a = 4000 := by
    rw [Scene.delayOf_eq, hstart, hfour]
    decide +kernel
  rw [hdelay] at hdelays
  refine ⟨dubbedCut_reachable, c, lane, v, a, hc, hwarn, hlane, hdubbed, hstart, htime, m, hm, hclip,
    hthree, n, hn, hdelays, ?_⟩
  rw [hthree, gapTolerance_eq]
  norm_num

end Timeline

end Montage
