/-
A compiled timeline is a graph that the engine can run.

Every node other than the two outputs is read once, by a node after it, in a
stream of its own kind; every clip of the lane is seen once, in the node of its picture, and
every further input heard once (`compile_wellWired`).
-/
import Montage.Proofs.Export.Strands
import Montage.Proofs.Layout.Lengths

namespace Montage

variable {α ι : Type} [Scalar α] [BEq ι]

/-! ## The lane -/

omit [BEq ι] in
theorem mem_allClips_of_lane {t : Timeline α ι} {lane : List (Clip α ι)} (h : t.lane = .ok lane)
    {clip : Clip α ι} (hclip : clip ∈ lane) : clip ∈ t.allClips := by
  unfold Timeline.lane at h
  dsimp only at h
  split at h
  · cases h
  · cases h
    rw [List.mem_mergeSort, List.mem_flatMap] at hclip
    obtain ⟨track, htrack, hclip⟩ := hclip
    exact List.mem_flatMap.2 ⟨track, List.mem_of_mem_filter htrack, hclip⟩

/-- The parts of the picture of a timeline whose lane is known. -/
def Timeline.grouping (t : Timeline α ι) (lane : List (Clip α ι)) : Grouping α ι :=
  groupClips lane (detectGaps lane) t.transitions

theorem grouping_clips (t : Timeline α ι) (lane : List (Clip α ι)) :
    (t.grouping lane).pieces.flatMap Piece.clips = List.range lane.length :=
  (pieces_clips (lane.map Clip.visibleDuration)).trans (by rw [List.length_map])

theorem laid_grouping (t : Timeline α ι) (lane : List (Clip α ι)) :
    Scene.Laid lane (t.grouping lane).pieces := by
  have hnodup : ((t.grouping lane).pieces.flatMap Piece.clips).Nodup :=
    grouping_clips t lane ▸ List.nodup_range
  intro r hr
  refine ⟨linked_of_mem_pieces hr, (List.nodup_flatMap.1 hnodup).1 _ hr, fun i hi => ?_⟩
  have hmem : i ∈ (t.grouping lane).pieces.flatMap Piece.clips := List.mem_flatMap.2 ⟨_, hr, hi⟩
  rw [grouping_clips] at hmem
  exact List.mem_range.1 hmem

section Sources

variable {s : Scene α ι} {lane : List (Clip α ι)} {grouping : Grouping α ι}

theorem inputs_laneReaders {i : Nat} {clip : Clip α ι} (h : lane[i]? = some clip) :
    (s.laneReaders lane grouping i).flatMap (·.inputs) =
      .source i .video :: if s.isSilent clip then [] else [.source i .audio] := by
  simp only [Scene.laneReaders, h, Scene.clipReaders]
  split <;> rfl

theorem source_of_mem_laneReaders {i : Nat} {r : Ref}
    (h : r ∈ (s.laneReaders lane grouping i).flatMap (·.inputs)) : ∃ st, r = .source i st := by
  cases hi : lane[i]? with
  | none => simp [Scene.laneReaders, hi] at h
  | some clip =>
    rw [inputs_laneReaders hi] at h
    rcases List.mem_cons.1 h with rfl | h
    · exact ⟨_, rfl⟩
    · split at h
      · cases h
      · exact ⟨_, List.mem_singleton.1 h⟩

/-- The streams that are read of the inputs: by the clips of the lane, and by some more clips. -/
def sourcesRead (s : Scene α ι) (lane : List (Clip α ι)) (grouping : Grouping α ι) (more : Nat) :
    List Ref :=
  ((List.range lane.length).flatMap (s.laneReaders lane grouping)).flatMap (·.inputs) ++
    (List.range' lane.length more).map fun (i : Nat) => .source i .audio

variable {more : Nat}

theorem mem_sourcesRead {r : Ref} (h : r ∈ sourcesRead s lane grouping more) :
    (∃ i < lane.length, ∃ st, r = .source (i : Nat) st) ∨
      ∃ i, lane.length ≤ i ∧ i < lane.length + more ∧ r = .source (i : Nat) .audio := by
  rcases List.mem_append.1 h with h | h
  · rw [List.flatMap_assoc] at h
    obtain ⟨i, hi, h⟩ := List.mem_flatMap.1 h
    exact .inl ⟨i, List.mem_range.1 hi, source_of_mem_laneReaders h⟩
  · obtain ⟨i, hi, rfl⟩ := List.mem_map.1 h
    obtain ⟨hle, hlt⟩ := List.mem_range'_1.1 hi
    exact .inr ⟨i, hle, hlt, rfl⟩

theorem picture_mem_sourcesRead {i : Nat} {clip : Clip α ι} (h : lane[i]? = some clip) :
    .source i .video ∈ sourcesRead s lane grouping more := by
  refine List.mem_append_left _ ?_
  rw [List.flatMap_assoc]
  refine List.mem_flatMap.2 ⟨i, List.mem_range.2 (List.getElem?_eq_some_iff.1 h).1, ?_⟩
  rw [inputs_laneReaders h]
  exact List.mem_cons_self ..

theorem track_mem_sourcesRead {i : Nat} (hi : lane.length ≤ i) (hlt : i < lane.length + more) :
    .source i .audio ∈ sourcesRead s lane grouping more :=
  List.mem_append_right _ (List.mem_map.2 ⟨i, List.mem_range'_1.2 ⟨hi, hlt⟩, rfl⟩)

/-- No stream of an input is read twice. -/
theorem nodup_sourcesRead : (sourcesRead s lane grouping more).Nodup := by
  have hlane : (((List.range lane.length).flatMap (s.laneReaders lane grouping)).flatMap
      (·.inputs)).Nodup := by
    rw [List.flatMap_assoc, List.nodup_flatMap]
    refine ⟨fun i hi => ?_, List.nodup_range.imp fun {i j} hij => ?_⟩
    · rw [inputs_laneReaders (List.getElem?_eq_getElem (List.mem_range.1 hi))]
      split <;> simp
    · rw [Function.onFun, List.disjoint_left]
      intro r hri hrj
      obtain ⟨_, rfl⟩ := source_of_mem_laneReaders hri
      obtain ⟨_, he⟩ := source_of_mem_laneReaders hrj
      cases he
      exact hij rfl
  refine List.nodup_append'.2 ⟨hlane, (List.nodup_range' ..).map fun i j h => ?_, ?_⟩
  · cases h
    rfl
  · intro r hl hr
    obtain ⟨i, hi, rfl⟩ := List.mem_map.1 hr
    rw [List.flatMap_assoc] at hl
    obtain ⟨j, hj, hl⟩ := List.mem_flatMap.1 hl
    obtain ⟨_, he⟩ := source_of_mem_laneReaders hl
    cases he
    have := List.mem_range.1 hj
    have := List.mem_range'_1.1 hi
    omega

end Sources

/-! ## Compiling -/

variable [Label ι α] {t : Timeline α ι} {library : Library α} {settings : ExportSettings}
  {font : String} {c : Compiled α ι}

/-- What the nodes of an export are made from. -/
def Scene.ofSettings (t : Timeline α ι) (library : Library α) (settings : ExportSettings) :
    Scene α ι :=
  ⟨t, library, (settings.frame t.aspectRatio).1, (settings.frame t.aspectRatio).2,
    settings.rate.value⟩

theorem compile_eq_ok (h : compile t library settings font = .ok c) :
    let s := Scene.ofSettings t library settings
    ∃ lane, t.lane = .ok lane ∧
      let parts := s.addPieces lane (t.grouping lane) Graph.empty (t.grouping lane).pieces
      let whole := Scene.assemble parts.1 parts.2
      ∃ drawn, s.addOverlays font (t.grouping lane).duration whole.1 whole.2.video t.overlays =
          .ok drawn ∧
        ∃ m, s.addHeard (t.grouping lane).duration
            ⟨drawn.1, lane.map fun clip => s.input clip clip.kind, []⟩ t.heardClips = .ok m ∧
          let mixed := Scene.mix m whole.2.audio
          let video := Draft.add mixed.1 "output" .video [.node drawn.2] [.pass .video]
          let audio := Draft.add video.1 "output" .audio [.node mixed.2] [.pass .audio]
          c.graph = audio.1 ∧ c.inputs = m.inputs ∧ c.output = ⟨video.2, audio.2⟩ ∧
            c.segments = parts.2 ∧ c.duration = (t.grouping lane).duration := by
  unfold compile at h
  rw [bind_eq_ok] at h
  obtain ⟨lane, hlane, h⟩ := h
  dsimp only at h
  split at h
  · cases h
  · split at h
    · cases h
    · split at h
      · cases h
      · simp only [bind_eq_ok] at h
        obtain ⟨drawn, hdrawn, m, hm, h⟩ := h
        cases h
        exact ⟨lane, hlane, drawn, hdrawn, m, hm, rfl, rfl, rfl, rfl, rfl⟩

/-- A graph that is wired well: it was built in order, from earlier nodes and the
streams of its inputs; every node but the outputs is read once, and no
stream of an input twice; the picture of each clip of the lane is read by its own node, and
the sound of each further input by a node for it. -/
structure Compiled.WellWired (c : Compiled α ι) (s : Scene α ι) (lane : List (Clip α ι))
    (grouping : Grouping α ι) : Prop where
  added : c.graph.nodes.foldlM Graph.add Graph.empty = .ok c.graph
  earlier : ∀ (k : Nat) (n : Node (Filter α)), c.graph.nodes[k]? = some n →
    ∀ i : Int, .node i ∈ n.inputs → 0 ≤ i ∧ i < k
  streams : ∀ n ∈ c.graph.nodes, ∀ r ∈ n.inputs, c.graph.stream? r = some n.stream
  once : ∀ k < c.graph.size, (k : Int) ≠ c.output.video → (k : Int) ≠ c.output.audio →
    c.graph.reads.count (.node k) = 1
  video : c.graph.stream? (.node c.output.video) = some .video ∧
    c.graph.reads.count (.node c.output.video) = 0
  audio : c.graph.stream? (.node c.output.audio) = some .audio ∧
    c.graph.reads.count (.node c.output.audio) = 0
  inputs : (lane.map fun clip => s.input clip clip.kind) <+: c.inputs
  sources : ∀ (i : Int) (st : Stream), .source i st ∈ c.graph.reads → 0 ≤ i ∧ i < c.inputs.length
  apart : ∀ (i : Int) (st : Stream), c.graph.reads.count (.source i st) ≤ 1
  pictures : ∀ (i : Nat) (clip : Clip α ι), lane[i]? = some clip →
    c.graph.reads.count (.source i .video) = 1 ∧
      s.pictureNode i clip (grouping.fadesOf i) ∈ c.graph.nodes
  tracks : ∀ i : Nat, lane.length ≤ i → i < c.inputs.length →
    c.graph.reads.count (.source i .audio) = 1 ∧ c.graph.reads.count (.source i .video) = 0 ∧
      ∃ n ∈ c.graph.nodes, n.op = "audio_track" ∧ n.inputs = [.source i .audio]

/-- The outputs are the loose ends of a compiled graph. -/
theorem compile_wired (h : compile t library settings font = .ok c) :
    c.graph.Wired c.output.ends := by
  obtain ⟨lane, -, drawn, hdrawn, m, hm, hgraph, -, houtput, -⟩ := compile_eq_ok h
  have hparts := Scene.addPieces_wired (Scene.ofSettings t library settings) (t.grouping lane)
    (laid_grouping t lane) Graph.wired_empty
  have hwhole := Scene.assemble_wired hparts
  have hpicture := Scene.addOverlays_wired hdrawn hwhole
  have hheard := Scene.addHeard_wired [_, _] hm (hpicture.perm (List.Perm.swap _ _ _))
  have hmixed := Scene.mix_wired (hheard.perm List.perm_middle.symm)
  have hvideo := Draft.wired_add [_] (hmixed.perm (List.Perm.swap _ _ _)) "output"
    [.pass .video]
  have haudio := Draft.wired_add [_] (hvideo.perm (List.Perm.swap _ _ _)) "output"
    [.pass .audio]
  rw [hgraph, houtput]
  exact haudio.perm (List.Perm.swap _ _ _)

/-- The inputs are read by the clips of the lane and by the audio clips that are heard. -/
theorem compile_readers (h : compile t library settings font = .ok c) :
    ∃ lane, t.lane = .ok lane ∧ ∃ tracks : List (Node (Filter α)),
      c.graph.readers = (List.range lane.length).flatMap
        ((Scene.ofSettings t library settings).laneReaders lane (t.grouping lane)) ++ tracks ∧
      (lane.map fun clip => (Scene.ofSettings t library settings).input clip clip.kind) <+:
        c.inputs ∧
      c.inputs.length = lane.length + tracks.length ∧
      tracks.map (fun n => (n.op, n.inputs)) =
        (List.range' lane.length tracks.length).map fun (i : Nat) =>
          ("audio_track", [Ref.source i .audio]) := by
  obtain ⟨lane, hlane, drawn, hdrawn, m, hm, hgraph, hinputs, -⟩ := compile_eq_ok h
  obtain ⟨tracks, hreaders, hpre, hlength, htracks⟩ := Scene.addHeard_readers hm
  rw [List.length_map] at hlength htracks
  refine ⟨lane, hlane, tracks, ?_, hinputs ▸ hpre, hinputs ▸ hlength, htracks⟩
  have hout : c.graph.readers = m.graph.readers := by
    rw [hgraph]
    exact (Draft.readers_add [_] "output" _).trans
      ((Draft.readers_add [_] "output" _).trans (Scene.mix_readers m _))
  rw [hout, hreaders, Scene.addOverlays_readers hdrawn, Scene.assemble_readers,
    Scene.addPieces_readers, grouping_clips]
  rfl

omit [Scalar α] in
theorem inputs_of_tracks {tracks : List (Node (Filter α))} {first : Nat}
    (h : tracks.map (fun n => (n.op, n.inputs)) = (List.range' first tracks.length).map
      fun (i : Nat) => ("audio_track", [Ref.source i .audio])) :
    tracks.flatMap (·.inputs) =
      (List.range' first tracks.length).map fun (i : Nat) => Ref.source i .audio := by
  have hpairs : tracks.flatMap (·.inputs) =
      (tracks.map fun n => (n.op, n.inputs)).flatMap (·.2) := by rw [List.flatMap_map]
  rw [hpairs, h, List.flatMap_map]
  exact List.map_eq_flatMap.symm

/-- **A timeline that compiles is wired well.** -/
theorem compile_wellWired (h : compile t library settings font = .ok c) :
    ∃ lane, t.lane = .ok lane ∧
      c.WellWired (Scene.ofSettings t library settings) lane (t.grouping lane) := by
  have hw := compile_wired h
  obtain ⟨lane, hlane, tracks, hreaders, hpre, hlength, htracks⟩ := compile_readers h
  let s := Scene.ofSettings t library settings
  have hcount : ∀ i st, c.graph.reads.count (.source i st) =
      (sourcesRead s lane (t.grouping lane) tracks.length).count (.source i st) := fun i st => by
    rw [c.graph.count_source, hreaders, List.flatMap_append, inputs_of_tracks htracks]
    rfl
  have hreader : ∀ n ∈ c.graph.readers, n ∈ c.graph.nodes := fun n hn => List.mem_of_mem_filter hn
  refine ⟨lane, hlane, {
    added := hw.added
    earlier := fun k n hn i hi => hw.earlier hn hi
    streams := fun n hn r hr => hw.stream?_eq hn hr
    once := fun k hk hv ha => hw.count_eq_one hk (by simpa [Strand.ends] using ⟨hv.symm, ha.symm⟩)
    video := ⟨hw.loose (.video, _) (by simp [Strand.ends]),
      hw.count_eq_zero (e := (.video, _)) (by simp [Strand.ends])⟩
    audio := ⟨hw.loose (.audio, _) (by simp [Strand.ends]),
      hw.count_eq_zero (e := (.audio, _)) (by simp [Strand.ends])⟩
    inputs := hpre
    sources := fun i st hi => ?_
    apart := fun i st => hcount i st ▸ List.nodup_iff_count_le_one.1 nodup_sourcesRead _
    pictures := fun i clip hi => ⟨?_, ?_⟩
    tracks := fun i hle hlt => ⟨?_, ?_, ?_⟩ }⟩
  · rw [← List.count_pos_iff, hcount, List.count_pos_iff] at hi
    rcases mem_sourcesRead hi with ⟨j, hj, _, he⟩ | ⟨j, _, hj, he⟩ <;> cases he <;> omega
  · rw [hcount]
    exact List.count_eq_one_of_mem nodup_sourcesRead (picture_mem_sourcesRead hi)
  · have hmem : s.pictureNode i clip ((t.grouping lane).fadesOf i) ∈
        s.laneReaders lane (t.grouping lane) i := by
      simp [Scene.laneReaders, hi, Scene.clipReaders]
    refine hreader _ (hreaders ▸ List.mem_append_left _ (List.mem_flatMap.2 ⟨i, ?_, hmem⟩))
    exact List.mem_range.2 (List.getElem?_eq_some_iff.1 hi).1
  · rw [hcount]
    exact List.count_eq_one_of_mem nodup_sourcesRead (track_mem_sourcesRead hle (by omega))
  · rw [hcount, List.count_eq_zero]
    intro hmem
    rcases mem_sourcesRead hmem with ⟨j, hj, _, he⟩ | ⟨j, _, _, he⟩
    · cases he
      omega
    · cases he
  · have hmem : ("audio_track", [Ref.source i .audio]) ∈
        tracks.map fun n => (n.op, n.inputs) := by
      rw [htracks]
      exact List.mem_map.2 ⟨i, List.mem_range'_1.2 ⟨hle, by omega⟩, rfl⟩
    obtain ⟨n, hn, he⟩ := List.mem_map.1 hmem
    rw [Prod.mk.injEq] at he
    exact ⟨n, hreader n (hreaders ▸ List.mem_append_right _ hn), he.1, he.2⟩

/-- A track of clips, unmuted and at its full gain. -/
def row (id : String) (kind : TrackKind) (clips : List (Clip Rat)) : Track Rat where
  id := id
  name := id
  kind := kind
  clips := clips
  muted := false
  locked := false
  gain := 1

/-- Two clips that meet in a cross-fade, one after a gap, and a sound beside them. -/
def reel : Timeline Rat where
  projectName := .text "reel"
  aspectRatio := .wide
  tracks := [row "v" .video shots,
    row "s" .audio [{ shot "d" 0 3 with kind := .audio, trackId := "s" }]]
  overlays := []
  transitions := [dissolve]
  looks := []

def reelMedia : Library Rat where
  assets := [{
    name := "m"
    kind := .video
    source := "m"
    duration := some 4
    width := none
    height := none
    hasAudio := true
    id := "m"
    created := .tick 0 }]

theorem reel_wellWired : ∃ c, compile reel reelMedia .default "font" = .ok c ∧
    c.graph.size = 16 ∧ c.inputs.length = 4 ∧ ∃ lane, reel.lane = .ok lane ∧
      c.WellWired (Scene.ofSettings reel reelMedia .default) lane (reel.grouping lane) := by
  have hframe : ExportSettings.default.frame reel.aspectRatio = (1920, 1080) := by decide +kernel
  have hsize : (compile reel reelMedia .default "font").map
      (fun c => (c.graph.size, c.inputs.length)) = .ok (16, 4) := by
    unfold compile
    rw [hframe]
    cbv
  obtain ⟨c, hc, hpair⟩ := map_eq_ok.1 hsize
  rw [Prod.mk.injEq] at hpair
  exact ⟨c, hc, hpair.1, hpair.2, compile_wellWired hc⟩

end Montage
