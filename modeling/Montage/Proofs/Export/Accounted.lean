/-
Every overlay and every audio clip is accounted for once in an export.

The overlays that have something to say and start in time are drawn in order, each over the picture
before it, the first over the assembled picture and the last into the output. Each is written with
the time in which it is shown (`Overlay.DrawnBy`). The audio clips of
unmuted tracks that start in time are played in the order of their starts, each from the input that
was handed in for it behind those of the lane, and mixed with the assembled sound if there are
any (`compile_accounted`).
-/
import Montage.Export.Invocation
import Montage.Proofs.Export.Nodes
import Montage.Proofs.Resolving

namespace Montage

variable {α ι φ : Type}

/-! ## Nodes of one operation -/

/-- The nodes of an operation among some that stand from an index on, each with its index. -/
def spotsFrom (op : String) (nodes : List (Node φ)) (index : Nat) : List (Node φ × Nat) :=
  (nodes.zipIdx index).filter (·.1.op == op)

/-- The nodes of an operation in a graph, each with its index. -/
def Graph.spots (g : Graph φ) (op : String) : List (Node φ × Nat) := spotsFrom op g.nodes 0

theorem spotsFrom_append (op : String) (first rest : List (Node φ)) (index : Nat) :
    spotsFrom op (first ++ rest) index =
      spotsFrom op first index ++ spotsFrom op rest (index + first.length) := by
  rw [spotsFrom, List.zipIdx_append, List.filter_append]
  rfl

/-- All or none of the nodes of one operation are of some operation. -/
theorem spotsFrom_of_op {op : String} {nodes : List (Node φ)} {own : String}
    (h : ∀ n ∈ nodes, n.op = own) (index : Nat) :
    spotsFrom op nodes index = if own = op then nodes.zipIdx index else [] := by
  have hop {p : Node φ × Nat} (hp : p ∈ nodes.zipIdx index) : p.1.op = own :=
    h p.1 (List.fst_mem_of_mem_zipIdx hp)
  split
  next heq => exact List.filter_eq_self.2 fun p hp => by simp [hop hp, heq]
  next hne => exact List.filter_eq_nil_iff.2 fun p hp => by simp [hop hp, hne]

theorem spotsFrom_eq_nil {op : String} {nodes : List (Node φ)} {ops : List String}
    (h : ∀ n ∈ nodes, n.op ∈ ops) (hop : op ∉ ops) (index : Nat) : spotsFrom op nodes index = [] :=
  List.filter_eq_nil_iff.2 fun p hp => Node.op_bne (h p.1 (List.fst_mem_of_mem_zipIdx hp)) hop

theorem map_zipIdx {β : Type} (g : Node φ → β) (nodes : List (Node φ)) (index : Nat) :
    (nodes.zipIdx index).map (fun p => g p.1) = nodes.map g :=
  (List.map_map (g := g) (f := Prod.fst)).symm.trans (congrArg _ (List.zipIdx_map_fst ..))

theorem indices_zipIdx (nodes : List (Node φ)) (index : Nat) :
    (nodes.zipIdx index).map (fun p => (p.2 : Int)) =
      (List.range' index nodes.length).map Int.ofNat :=
  (List.map_map (g := Int.ofNat) (f := Prod.snd)).symm.trans
    (congrArg _ (List.zipIdx_map_snd ..))

/-- The nodes that draw texts read one another in turn, from the first picture to the last. -/
theorem drawNodes_chain (video : Int) (index : Nat) (texts : List (Filter α)) :
    (drawNodes video index texts).map (·.inputs) ++
        [[.node ((layers video index texts.length).getLast (List.cons_ne_nil _ _))]] =
      (layers video index texts.length).map fun i => [.node i] := by
  induction texts generalizing video index with
  | nil => rfl
  | cons f texts ih =>
    rw [drawNodes_cons, List.map_cons, List.cons_append]
    exact congrArg ([Ref.node video] :: ·) (ih index (index + 1))

/-- The filter that mixes some sounds for as long as the first of them lasts, as it is written. -/
def mixing (count : Nat) : String :=
  "amix=inputs=" ++ toString count ++ ":duration=first:dropout_transition=0:normalize=0"

namespace Finish

variable (f : Finish α)

/-- The index of the node that hands on the picture; the sound comes next. -/
def last : Nat :=
  f.first + 2 + f.texts.length + f.tracks.length + (mixNodes f.sounds : List (Node (Filter α))).length

theorem length_nodes : f.first + f.nodes.length = f.last + 2 := by
  simp only [nodes, later, last, assemblyNodes, outputNodes, List.length_append, length_drawNodes,
    List.length_cons, List.length_nil]
  omega

/-- The nodes of an operation behind those of the parts. -/
def spots (op : String) : List (Node (Filter α) × Nat) :=
  (if "assemble" = op then (assemblyNodes f.strands).zipIdx f.first else []) ++
  ((if "drawtext" = op then (drawNodes f.first (f.first + 2) f.texts).zipIdx (f.first + 2) else []) ++
  ((if "audio_track" = op then f.tracks.zipIdx (f.first + 2 + f.texts.length) else []) ++
  ((if "amix" = op then
      (mixNodes f.sounds).zipIdx (f.first + 2 + f.texts.length + f.tracks.length) else []) ++
  (if "output" = op then (outputNodes f.picture f.sound).zipIdx f.last else []))))

theorem spotsFrom_nodes (htracks : ∀ n ∈ f.tracks, n.op = "audio_track") (op : String) :
    spotsFrom op f.nodes f.first = f.spots op := by
  have hassembly : ∀ n ∈ assemblyNodes (α := α) f.strands, n.op = "assemble" := by
    simp [assemblyNodes]
  simp only [nodes, later, spotsFrom_append, spotsFrom_of_op hassembly,
    spotsFrom_of_op fun _ => op_of_mem_drawNodes, spotsFrom_of_op htracks,
    spotsFrom_of_op fun _ => op_of_mem_mixNodes, spotsFrom_of_op fun _ => op_of_mem_outputNodes,
    length_drawNodes]
  rfl

theorem spots_assemble : f.spots "assemble" = (assemblyNodes f.strands).zipIdx f.first := by
  simp [spots]

theorem spots_drawtext :
    f.spots "drawtext" = (drawNodes f.first (f.first + 2) f.texts).zipIdx (f.first + 2) := by
  simp [spots]

theorem spots_audioTrack :
    f.spots "audio_track" = f.tracks.zipIdx (f.first + 2 + f.texts.length) := by
  simp [spots]

theorem spots_amix : f.spots "amix" =
    (mixNodes f.sounds).zipIdx (f.first + 2 + f.texts.length + f.tracks.length) := by
  simp [spots]

theorem spots_output : f.spots "output" = (outputNodes f.picture f.sound).zipIdx f.last := by
  simp [spots]

/-- The nodes that draw texts lead from the assembled picture to the one in the end. -/
theorem chain : (f.spots "drawtext").map (·.1.inputs) ++ [[.node f.picture]] =
    ((f.first : Int) :: (f.spots "drawtext").map fun p => (p.2 : Int)).map fun i => [.node i] := by
  rw [spots_drawtext, indices_zipIdx, map_zipIdx fun n => n.inputs, length_drawNodes]
  exact drawNodes_chain ..

theorem sounds_eq : f.sounds =
    ((f.first + 1 : Nat) : Int) :: (f.spots "audio_track").map fun p => (p.2 : Int) := by
  rw [spots_audioTrack, indices_zipIdx, sounds]

theorem length_sounds : f.sounds.length = 1 + f.tracks.length := by simp [sounds, Nat.add_comm]

theorem unmixed (h : f.tracks = []) :
    f.spots "amix" = [] ∧ f.sound = (f.first + 1 : Nat) := by
  simp [spots_amix, mixNodes, sounds, sound, h]

/-- The sounds are mixed if audio clips are played. -/
theorem mixed (h : f.tracks ≠ []) :
    (f.spots "amix").map (fun p => (p.1.inputs, p.1.filters, (p.2 : Int))) =
      [(f.sounds.map .node, .mix (1 + f.tracks.length) :: normalAudio, f.sound)] := by
  simp [spots_amix, mixNodes, f.length_sounds, sound, h]

theorem mix_text [Scalar α] {p : Node (Filter α) × Nat} (hp : p ∈ f.spots "amix") :
    (p.1.filters.map Filter.text).head? = some (mixing (1 + f.tracks.length)) := by
  have hmem : p.1 ∈ mixNodes f.sounds := List.fst_mem_of_mem_zipIdx (f.spots_amix ▸ hp)
  unfold mixNodes at hmem
  split at hmem
  · cases hmem
  · rw [List.mem_singleton.1 hmem, ← f.length_sounds]
    rfl

end Finish

/-! ## Accounts -/

/-- The option of a text that is shown from one time until another, as it is written. -/
def showing (start finish : Rat) : String :=
  "enable='gte(t," ++ compact start ++ ")*lt(t," ++ compact finish ++ ")'"

/-- A node that draws an overlay from its start until it or the export ends. -/
structure Overlay.DrawnBy (o : Overlay Rat) (total : Rat) (n : Node (Filter Rat)) : Prop where
  stream : n.stream = .video
  drawn : ∃ d : DrawText Rat, n.filters = [.drawText d] ∧ d.text = o.text ∧ d.color = o.color ∧
    d.background = o.background ∧ d.start = o.start ∧ d.finish = min o.finish total
  /-- The text is written between quotes, and the time in which it is shown comes last. -/
  written : ∃ front, "text='" ++ escape o.text ++ "'" ∈ front ∧ n.filters.map Filter.text =
    ["drawtext=" ++ ":".intercalate (front ++ [showing o.start (min o.finish total)])]
  window : o.start < min o.finish total

/-- An input that brings the file of a clip. -/
structure Input.Brings (library : Library α) (clip : Clip α ι) (kind : MediaKind) (x : Input ι) :
    Prop where
  clipId : x.clipId = clip.id
  kind : x.kind = kind
  file : ∃ asset, library.get? clip.mediaId = some asset ∧ x.uri = asset.source

/-- The clips that an export takes in, with the kinds of their files: those of the lane, and behind
them those that are heard beside it. -/
def filesOf (lane heard : List (Clip α ι)) : List (Clip α ι × MediaKind) :=
  lane.map (fun clip => (clip, clip.kind)) ++ heard.map fun clip => (clip, .audio)

/-- The picture and the sound as they are assembled, and as they are handed on in the end. -/
structure Relay where
  picture : Int
  sound : Int
  shown : Int
  played : Int

/-- An export that accounts once for each overlay that is shown, and for each audio clip that is
heard. -/
structure Compiled.Accounted (c : Compiled Rat ι) (library : Library Rat)
    (shown : List (Overlay Rat)) (lane heard : List (Clip Rat ι)) (relay : Relay) : Prop where
  inputs : List.Forall₂ (fun p => Input.Brings library p.1 p.2) (filesOf lane heard) c.inputs
  assembled : (c.graph.spots "assemble").map (fun p => (p.1.stream, (p.2 : Int))) =
    [(.video, relay.picture), (.audio, relay.sound)]
  /-- Each overlay has a node, in order. -/
  texts : List.Forall₂ (fun o p => o.DrawnBy c.duration p.1) shown (c.graph.spots "drawtext")
  /-- Each of these nodes reads the one before it. -/
  chain : (c.graph.spots "drawtext").map (·.1.inputs) ++ [[.node relay.shown]] =
    (relay.picture :: (c.graph.spots "drawtext").map fun p => (p.2 : Int)).map fun i => [.node i]
  /-- Each audio clip has a node, in order, that reads the input handed in for it. -/
  tracks : List.Forall₂ (fun h p => p.1.inputs = [.source h.2 .audio] ∧
    (c.inputs[h.2]?).map (·.clipId) = some h.1.id) (heard.zipIdx lane.length) (c.graph.spots "audio_track")
  unmixed : heard = [] → c.graph.spots "amix" = [] ∧ relay.played = relay.sound
  /-- The assembled sound is mixed with all audio clips. -/
  mixed : heard ≠ [] → (c.graph.spots "amix").map (fun p => (p.1.inputs, p.1.filters, (p.2 : Int))) =
    [((relay.sound :: (c.graph.spots "audio_track").map fun p => (p.2 : Int)).map .node,
      .mix (1 + heard.length) :: normalAudio, relay.played)]
  /-- The mix is written with the number of its inputs. -/
  mixText : ∀ p ∈ c.graph.spots "amix",
    (p.1.filters.map Filter.text).head? = some (mixing (1 + heard.length))
  outputs : (c.graph.spots "output").map (fun p => (p.1.stream, p.1.inputs, (p.2 : Int))) =
    [(.video, [.node relay.shown], c.output.video), (.audio, [.node relay.played], c.output.audio)]

/-- The clips of unmuted audio tracks that start before a time. -/
def Timeline.soundsBefore (t : Timeline Rat ι) (total : Rat) : List (Clip Rat ι) :=
  ((t.tracks.filter fun x => x.kind == .audio && !x.muted).flatMap (·.clips)).filter
    fun clip => decide (clip.start < total)

/-! ## Texts -/

theorem Overlay.drawnBy_of_drawnAs {s : Scene Rat ι} {font : String} {total : Rat} {o : Overlay Rat}
    {f : Filter Rat} (hduration : 0 < o.duration) (hstart : o.start < total)
    (h : s.DrawnAs font total o f) (video : Int) :
    o.DrawnBy total ⟨"drawtext", .video, [.node video], [f]⟩ := by
  unfold Scene.DrawnAs Overlay.drawn at h
  simp only [bind_eq_ok, Scalar.smaller_eq_min] at h
  obtain ⟨size, -, x, -, y, -, h⟩ := h
  cases h
  exact {
    stream := rfl
    drawn := ⟨_, rfl, rfl, rfl, rfl, rfl, rfl⟩
    written := ⟨_, List.mem_append_left _ (by simp), rfl⟩
    window := lt_min (lt_add_of_pos_right _ hduration) hstart }

theorem forall₂_drawNodes {s : Scene Rat ι} {font : String} {total : Rat} {overlays : List (Overlay Rat)}
    {texts : List (Filter Rat)} (hshown : ∀ o ∈ overlays, 0 < o.duration ∧ o.start < total)
    (h : List.Forall₂ (s.DrawnAs font total) overlays texts) (video : Int) (index first : Nat) :
    List.Forall₂ (fun o p => o.DrawnBy total p.1) overlays
      ((drawNodes video index texts).zipIdx first) := by
  induction h generalizing video index first with
  | nil => exact .nil
  | cons hdrawn _ ih =>
    obtain ⟨⟨hduration, hstart⟩, hshown⟩ := List.forall_mem_cons.1 hshown
    rw [drawNodes_cons, List.zipIdx_cons]
    exact .cons (Overlay.drawnBy_of_drawnAs hduration hstart hdrawn video) (ih hshown ..)

/-! ## Files -/

theorem Scene.forall₂_inputs {s : Scene Rat ι} {files : List (Clip Rat ι × MediaKind)}
    (h : ∀ p ∈ files, ∃ asset, s.library.get? p.1.mediaId = some asset) :
    List.Forall₂ (fun p => Input.Brings s.library p.1 p.2) files
      (files.map fun p => s.input p.1 p.2) := by
  refine List.forall₂_map_right_iff.2 (List.forall₂_same.2 fun p hp => ?_)
  obtain ⟨asset, hasset⟩ := h p hp
  exact ⟨rfl, rfl, asset, hasset, by simp [Scene.input, hasset]⟩

/-- The nodes that play audio clips read the inputs that bring them. -/
theorem Scene.forall₂_trackNodes (s : Scene Rat ι) (before : List (Input ι))
    (heard : List (Clip Rat ι)) (index : Nat) :
    List.Forall₂ (fun h p => p.1.inputs = [.source h.2 .audio] ∧
        ((before ++ heard.map fun clip => s.input clip .audio)[h.2]?).map (·.clipId) = some h.1.id)
      (heard.zipIdx before.length) (((heard.zipIdx before.length).map s.trackNode).zipIdx index) := by
  refine List.forall₂_iff_get.2 ⟨by simp, fun j hj hj' => ⟨by simp [trackNode], ?_⟩⟩
  have hj : j < heard.length := by simpa using hj
  simp only [List.get_eq_getElem, List.getElem_zipIdx]
  rw [List.getElem?_append_right (Nat.le_add_right ..), Nat.add_sub_cancel_left]
  simp [hj, input]

/-- The engine is handed the inputs in order, before the graph. -/
theorem Compiled.invocation_files (c : Compiled Rat ι) (settings : ExportSettings)
    (engine output : String) : ∃ rest, c.invocation settings engine output =
      [engine, "-y", "-hide_banner"] ++ (c.inputs.flatMap fun x => ["-i", x.uri]) ++
        "-filter_complex" :: c.graphText :: rest := by
  simp only [invocation, options, List.append_assoc, List.cons_append, List.nil_append]
  exact ⟨_, rfl⟩

theorem filter_shows (overlays : List (Overlay Rat)) (total : Rat) :
    overlays.filter (Scene.shows total) =
      overlays.filter fun o => !isBlankText o.text && decide (o.start < total) :=
  List.filter_congr fun o _ => by simp [Scene.shows, ← decide_not]

theorem audible_heardClips_perm (t : Timeline Rat ι) (total : Rat) :
    (Scene.audible total t.heardClips).Perm (t.soundsBefore total) := by
  rw [Timeline.soundsBefore, Scene.audible,
    List.filter_congr (q := fun clip : Clip Rat ι => decide (clip.start < total)) fun _ _ => by
      simp [← decide_not]]
  exact (sortByStart_perm _).filter _

theorem audible_heardClips_sorted (t : Timeline Rat ι) (total : Rat) :
    (Scene.audible total t.heardClips).Pairwise fun a b => a.start ≤ b.start :=
  (sortByStart_sorted _).filter _

section Compile

variable [BEq ι] [Label ι Rat] {t : Timeline Rat ι} {library : Library Rat}
  {settings : ExportSettings} {font : String} {c : Compiled Rat ι}

/-- The media of a timeline that compiles are in the library. -/
theorem compile_found (h : compile t library settings font = .ok c) {lane : List (Clip Rat ι)}
    (hlane : t.lane = .ok lane) :
    ∀ clip ∈ lane ++ t.heardClips, ∃ asset, library.get? clip.mediaId = some asset := by
  have hfound : (firstMissing? library lane <|> firstMissing? library t.heardClips) = none := by
    unfold compile at h
    rw [hlane] at h
    simp only [bind, Except.bind] at h
    split at h
    · cases h
    next hnone => exact hnone
  obtain ⟨hfirst, hsecond⟩ := (Option.orElse_eq_none _ _).1 hfound
  have hhas {clips : List (Clip Rat ι)} (hnone : firstMissing? library clips = none) :
      ∀ clip ∈ clips, ∃ asset, library.get? clip.mediaId = some asset := fun clip hclip => by
    have hhas := List.find?_eq_none.1 hnone clip hclip
    rw [← Option.isSome_iff_exists, Library.get?, List.find?_isSome]
    simpa [Library.has] using hhas
  exact List.forall_mem_append.2 ⟨hhas hfirst, hhas hsecond⟩

/-- The inputs of a compiled timeline bring the clips of its lane, and behind them those that are
heard beside it. -/
theorem compile_inputs (h : compile t library settings font = .ok c) {lane : List (Clip Rat ι)}
    (hlane : t.lane = .ok lane) :
    let s := Scene.ofSettings t library settings
    let heard := Scene.audible c.duration t.heardClips
    c.inputs = lane.map (fun clip => s.input clip clip.kind) ++
        heard.map (fun clip => s.input clip .audio) ∧
      List.Forall₂ (fun p => Input.Brings library p.1 p.2) (filesOf lane heard) c.inputs := by
  intro s heard
  obtain ⟨_, hlane', -, hinputs, -⟩ := compile_leaves h
  cases hlane.symm.trans hlane'
  have hfound := compile_found h hlane
  have hfiles : c.inputs = (filesOf lane heard).map fun p => s.input p.1 p.2 := by
    simp [hinputs, filesOf, Function.comp_def, s, heard]
  refine ⟨hinputs, ?_⟩
  rw [hfiles]
  refine s.forall₂_inputs (List.forall_mem_append.2 ⟨?_, ?_⟩)
  · exact List.forall_mem_map.2 fun clip hclip => hfound clip (List.mem_append_left _ hclip)
  · exact List.forall_mem_map.2 fun clip hclip =>
      hfound clip (List.mem_append_right _ (List.mem_of_mem_filter hclip))

/-- The nodes of a compiled timeline that no part is made with. -/
theorem compile_spots (h : compile t library settings font = .ok c) :
    let s := Scene.ofSettings t library settings
    ∃ lane first texts, t.lane = .ok lane ∧
      List.Forall₂ (s.DrawnAs font c.duration) (t.overlays.filter (Scene.shows c.duration)) texts ∧
      let f : Finish Rat := ⟨first, c.segments.map (·.strand), texts,
        ((Scene.audible c.duration t.heardClips).zipIdx lane.length).map s.trackNode⟩
      (∀ op ∉ ["gap", "clip", "xfade", "acrossfade", "concat"], c.graph.spots op = f.spots op) ∧
        c.output = ⟨f.last, (f.last + 1 : Nat)⟩ := by
  obtain ⟨lane, parts, texts, hlane, hparts, htexts, hnodes, houtput⟩ := compile_nodes h
  refine ⟨lane, parts.length, texts, hlane, htexts, ?_⟩
  intro f
  have htracks : ∀ n ∈ f.tracks, n.op = "audio_track" := List.forall_mem_map.2 fun _ _ => rfl
  refine ⟨fun op hop => ?_, ?_⟩
  · rw [Graph.spots, hnodes, spotsFrom_append, spotsFrom_eq_nil (fun n hn => (hparts n hn).op) hop,
      Nat.zero_add]
    exact f.spotsFrom_nodes htracks op
  · have hsize : c.graph.size = f.last + 2 := by
      rw [Graph.size, hnodes, List.length_append]
      exact f.length_nodes
    rw [houtput, hsize, Strand.mk.injEq]
    omega

/-- **Each overlay and each audio clip is accounted for once.** -/
theorem compile_accounted (ht : ∀ o ∈ t.overlays, 0 < o.duration)
    (h : compile t library settings font = .ok c) :
    ∃ lane heard relay, t.lane = .ok lane ∧
      heard.Perm (t.soundsBefore c.duration) ∧ heard.Pairwise (fun a b => a.start ≤ b.start) ∧
      c.Accounted library
        (t.overlays.filter fun o => !isBlankText o.text && decide (o.start < c.duration)) lane heard relay ∧
      ∀ engine output, ∃ rest, c.invocation settings engine output =
        [engine, "-y", "-hide_banner"] ++ (c.inputs.flatMap fun x => ["-i", x.uri]) ++
          "-filter_complex" :: c.graphText :: rest := by
  obtain ⟨lane, first, texts, hlane, htexts, hspots, houtput⟩ := compile_spots h
  obtain ⟨hinputs, hbrings⟩ := compile_inputs h hlane
  have hperm := audible_heardClips_perm t c.duration
  have hsorted := audible_heardClips_sorted t c.duration
  rw [filter_shows] at htexts
  -- How these clips were chosen, and the scene set, does not matter from here on.
  generalize Scene.audible c.duration t.heardClips = heard at *
  generalize Scene.ofSettings t library settings = s at *
  generalize hf : Finish.mk first _ texts _ = f at hspots houtput
  refine ⟨lane, heard, ⟨f.first, (f.first + 1 : Nat), f.picture, f.sound⟩, hlane, hperm, hsorted, {
    inputs := hbrings
    assembled := ?_
    texts := ?_
    chain := ?_
    tracks := ?_
    unmixed := fun hnil => ?_
    mixed := fun hne => ?_
    mixText := fun p hp => ?_
    outputs := ?_ }, fun engine output => ?_⟩
  · rw [hspots _ (by decide), f.spots_assemble]
    rfl
  · rw [hspots _ (by decide), f.spots_drawtext, ← hf]
    refine forall₂_drawNodes (fun o ho => ?_) htexts ..
    obtain ⟨ho, hstart⟩ := List.mem_filter.1 ho
    exact ⟨ht o ho, by simpa using (Bool.and_eq_true_iff.1 hstart).2⟩
  · rw [hspots _ (by decide)]
    exact f.chain
  · have hplayed := s.forall₂_trackNodes (lane.map fun clip => s.input clip clip.kind) heard
    rw [List.length_map, ← hinputs] at hplayed
    rw [hspots _ (by decide), f.spots_audioTrack, ← hf]
    exact hplayed _
  · rw [hspots _ (by decide)]
    exact f.unmixed (by simp [← hf, hnil])
  · rw [hspots _ (by decide), hspots _ (by decide), f.mixed (by simp [← hf, hne]), f.sounds_eq]
    simp [← hf]
  · rw [hspots _ (by decide)] at hp
    simpa [← hf] using f.mix_text hp
  · rw [hspots _ (by decide), f.spots_output, houtput]
    rfl
  · exact c.invocation_files settings engine output

end Compile

/-- The reel with a caption that runs over its end, a blank one and one that is too late, a second
sound that is too late and one on a muted track. -/
def subtitled : Timeline Rat :=
  { reel with
    tracks := reel.tracks ++ [
      row "r" .audio [{ shot "e" 60 3 with kind := .audio, trackId := "r" }],
      { row "q" .audio [{ shot "f" 0 3 with kind := .audio, trackId := "q" }] with muted := true }]
    overlays := [caption "hello" 2 60, caption " " 0 1, caption "bye" 60 1] }

theorem subtitled_accounted :
    (∀ o ∈ subtitled.overlays, 0 < o.duration) ∧
      ∃ c, compile subtitled reelMedia .default "font" = .ok c ∧
        (c.graph.spots "drawtext").length = 1 ∧ c.inputs.map (·.clipId) = ["a", "b", "c", "d"] ∧
        ∃ lane heard relay, subtitled.lane = .ok lane ∧
          heard.Perm (subtitled.soundsBefore c.duration) ∧
          heard.Pairwise (fun a b => a.start ≤ b.start) ∧
          c.Accounted reelMedia (subtitled.overlays.filter fun o =>
            !isBlankText o.text && decide (o.start < c.duration)) lane heard relay ∧
          ∀ engine output, ∃ rest, c.invocation .default engine output =
            [engine, "-y", "-hide_banner"] ++ (c.inputs.flatMap fun x => ["-i", x.uri]) ++
              "-filter_complex" :: c.graphText :: rest := by
  have hdurations : ∀ o ∈ subtitled.overlays, 0 < o.duration := by
    simp [subtitled, caption]
  have hframe : ExportSettings.default.frame subtitled.aspectRatio = (1920, 1080) := by
    decide +kernel
  have hcounts : (compile subtitled reelMedia .default "font").map
      (fun c => ((c.graph.spots "drawtext").length, c.inputs.map (·.clipId))) =
        .ok (1, ["a", "b", "c", "d"]) := by
    unfold compile
    rw [hframe]
    cbv
  obtain ⟨c, hc, hpair⟩ := map_eq_ok.1 hcounts
  rw [Prod.mk.injEq] at hpair
  exact ⟨hdurations, c, hc, hpair.1, hpair.2, compile_accounted hdurations hc⟩

end Montage
