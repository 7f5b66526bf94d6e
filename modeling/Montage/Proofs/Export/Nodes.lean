/-
The nodes of a compiled timeline, in order.

First come the nodes of the parts of the picture. Each is of one of five operations and ends in the
common format of its stream, and none but those of the clips reads an input
(`Scene.addPieces_extends`). Behind them stand the two that assemble the parts, one for each overlay
that is shown, drawn over the picture before it, one for each audio clip that is heard, one that
mixes these if there are any, and the two outputs (`compile_nodes`).
-/
import Montage.Proofs.Export.Leaves

namespace Montage

variable {α ι : Type}

/-! ## Graphs with further nodes -/

namespace Graph

variable {φ : Type} {g g' g'' : Graph φ} {P : Node φ → Prop}

/-- A graph with further nodes, all of a kind. -/
def Extends (P : Node φ → Prop) (g g' : Graph φ) : Prop :=
  ∃ more, g'.nodes = g.nodes ++ more ∧ ∀ n ∈ more, P n

theorem Extends.refl (P : Node φ → Prop) (g : Graph φ) : g.Extends P g := ⟨[], by simp, by simp⟩

theorem Extends.trans (h : g.Extends P g') (h' : g'.Extends P g'') : g.Extends P g'' := by
  obtain ⟨more, hmore, hP⟩ := h
  obtain ⟨more', hmore', hP'⟩ := h'
  exact ⟨more ++ more', by rw [hmore', hmore, List.append_assoc],
    List.forall_mem_append.2 ⟨hP, hP'⟩⟩

theorem extends_push {n : Node φ} (h : P n) : g.Extends P (g.push n) := ⟨[n], rfl, by simpa using h⟩

end Graph

/-- The filters that bring a stream to the common format. -/
def Stream.levelling (fps : Int) : Stream → List (Filter α)
  | .video => normalVideo fps
  | .audio => normalAudio

/-- A node that a part of the picture is made with. -/
structure Node.OfPart (fps : Int) (n : Node (Filter α)) : Prop where
  op : n.op ∈ ["gap", "clip", "xfade", "acrossfade", "concat"]
  level : n.stream.levelling fps <:+ n.filters
  reads : n.op ≠ "clip" → ∀ r ∈ n.inputs, r.isSource = false

namespace Draft

variable {g : Draft α} {fps : Int} {op : String} {inputs : List Ref}

theorem extends_addVideo (hop : op ∈ ["gap", "clip", "xfade", "acrossfade", "concat"])
    (hreads : op ≠ "clip" → ∀ r ∈ inputs, r.isSource = false) (filters : List (Filter α)) :
    Graph.Extends (Node.OfPart fps) g (g.addVideo fps op inputs filters).1 :=
  Graph.extends_push ⟨hop, List.suffix_append .., hreads⟩

theorem extends_addAudio (hop : op ∈ ["gap", "clip", "xfade", "acrossfade", "concat"])
    (hreads : op ≠ "clip" → ∀ r ∈ inputs, r.isSource = false) (filters : List (Filter α)) :
    Graph.Extends (Node.OfPart fps) g (g.addAudio op inputs filters).1 :=
  Graph.extends_push ⟨hop, List.suffix_append .., hreads⟩

end Draft

namespace Scene

variable {s : Scene α ι} {g : Draft α}

theorem addGap_extends (d : α) : Graph.Extends (Node.OfPart s.fps) g (s.addGap g d).1 :=
  (Draft.extends_addVideo (by simp) (by simp) _).trans (Draft.extends_addAudio (by simp) (by simp) _)

theorem addJoin_extends (sofar next : Strand) (join : Join α ι) :
    Graph.Extends (Node.OfPart s.fps) g (s.addJoin g sofar next join).1 := by
  unfold addJoin
  split <;> exact (Draft.extends_addVideo (by simp) (by simp [Ref.isSource]) _).trans
    (Draft.extends_addAudio (by simp) (by simp [Ref.isSource]) _)

theorem addJoins_extends (strands : List (Nat × Strand)) (sofar : Strand)
    (joins : List (Join α ι)) :
    Graph.Extends (Node.OfPart s.fps) g (s.addJoins strands g sofar joins).1 := by
  induction joins generalizing g sofar with
  | nil => exact .refl _ _
  | cons join joins ih =>
    rw [addJoins]
    split
    · exact ih sofar
    · exact (addJoin_extends ..).trans (ih _)

section Parts

variable [Scalar α] [BEq ι] {lane : List (Clip α ι)} {grouping : Grouping α ι}

theorem addClip_extends (index : Nat) (clip : Clip α ι) (fades : List (Transition α ι)) :
    Graph.Extends (Node.OfPart s.fps) g (s.addClip g index clip fades).1 := by
  have hpicture : Graph.Extends (Node.OfPart s.fps) g (g.addVideo s.fps "clip" [.source index .video]
      (s.pictureFilters clip fades)).1 := Draft.extends_addVideo (by simp) (by simp) _
  unfold addClip
  dsimp only
  split <;> exact hpicture.trans (Draft.extends_addAudio (by simp) (by simp) _)

variable (s g lane grouping) in
theorem addClips_extends (indices : List Nat) :
    Graph.Extends (Node.OfPart s.fps) g (s.addClips lane grouping g indices).1 := by
  induction indices generalizing g with
  | nil => exact .refl _ _
  | cons index rest ih =>
    rw [addClips]
    split
    · exact ih g
    · exact (addClip_extends ..).trans (ih _)

theorem addRun_extends (run : Run α ι) :
    Graph.Extends (Node.OfPart s.fps) g (s.addRun lane grouping g run).1 := by
  have hclips := addClips_extends s g lane grouping run.clips
  unfold addRun
  split
  next g' strands hg =>
  rw [hg] at hclips
  split
  · exact hclips
  · exact hclips.trans (addJoins_extends ..)

variable (s g lane grouping) in
/-- The parts of the picture are made with nodes in the common format. -/
theorem addPieces_extends (ps : List (Piece α ι)) :
    Graph.Extends (Node.OfPart s.fps) g (s.addPieces lane grouping g ps).1 := by
  induction ps generalizing g with
  | nil => exact .refl _ _
  | cons piece rest ih =>
    cases piece with
    | gap d => exact (addGap_extends d).trans (ih _)
    | run r => exact (addRun_extends r).trans (ih _)

end Parts

end Scene

/-! ## Nodes behind those of the parts -/

theorem Node.op_bne {φ : Type} {n : Node φ} {ops : List String} (h : n.op ∈ ops) {op : String}
    (hop : op ∉ ops) : ¬(n.op == op) = true := by
  rw [beq_iff_eq]
  rintro rfl
  exact hop h

/-- The nodes that put the parts of a picture, and their sounds, one after another. -/
def assemblyNodes (strands : List Strand) : List (Node (Filter α)) :=
  let joined (stream : Stream) : List (Filter α) :=
    if strands.length = 1 then [.pass stream] else [.concat strands.length stream]
  [⟨"assemble", .video, strands.map fun x => .node x.video, joined .video⟩,
    ⟨"assemble", .audio, strands.map fun x => .node x.audio, joined .audio⟩]

/-- A picture, and those that come of it by drawing over it some times with nodes from an index
on. -/
def layers (video : Int) (index count : Nat) : List Int :=
  video :: (List.range' index count).map Int.ofNat

/-- The nodes from an index on that draw texts over a picture, each over the one before it. -/
def drawNodes (video : Int) (index : Nat) (texts : List (Filter α)) : List (Node (Filter α)) :=
  List.zipWith (fun i f => ⟨"drawtext", .video, [.node i], [f]⟩) (layers video index texts.length) texts

/-- The node that mixes sounds, if there is more than one. -/
def mixNodes (sounds : List Int) : List (Node (Filter α)) :=
  if sounds.length ≤ 1 then []
  else [⟨"amix", .audio, sounds.map .node, .mix sounds.length :: normalAudio⟩]

/-- The two nodes that hand on a picture and a sound. -/
def outputNodes (video audio : Int) : List (Node (Filter α)) :=
  [⟨"output", .video, [.node video], [.pass .video]⟩,
    ⟨"output", .audio, [.node audio], [.pass .audio]⟩]

theorem drawNodes_cons (video : Int) (index : Nat) (f : Filter α) (texts : List (Filter α)) :
    drawNodes video index (f :: texts) =
      ⟨"drawtext", .video, [.node video], [f]⟩ :: drawNodes index (index + 1) texts := rfl

theorem op_of_mem_drawNodes {video : Int} {index : Nat} {texts : List (Filter α)}
    {n : Node (Filter α)} (h : n ∈ drawNodes video index texts) : n.op = "drawtext" := by
  induction texts generalizing video index with
  | nil => simp [drawNodes] at h
  | cons f texts ih =>
    rw [drawNodes_cons] at h
    rcases List.mem_cons.1 h with rfl | h
    · rfl
    · exact ih h

theorem op_of_mem_mixNodes {sounds : List Int} {n : Node (Filter α)} (h : n ∈ mixNodes sounds) :
    n.op = "amix" := by
  unfold mixNodes at h
  split at h
  · cases h
  · rw [List.mem_singleton.1 h]

theorem op_of_mem_outputNodes {video audio : Int} {n : Node (Filter α)}
    (h : n ∈ outputNodes video audio) : n.op = "output" := by
  rcases List.mem_pair.1 h with rfl | rfl <;> rfl

theorem length_drawNodes (video : Int) (index : Nat) (texts : List (Filter α)) :
    (drawNodes video index texts).length = texts.length := by
  simp [drawNodes, layers]

namespace Scene

variable {s : Scene α ι} {g : Draft α}

theorem assemble_nodes (segments : List (Segment α ι)) :
    (assemble g segments).1.nodes = g.nodes ++ assemblyNodes (segments.map (·.strand)) ∧
      (assemble g segments).2 = ⟨g.size, (g.size + 1 : Nat)⟩ := by
  simp [assemble, Draft.add, Graph.push, Graph.size, assemblyNodes, List.map_map, Function.comp_def]

theorem mix_nodes (m : Mix α ι) (audio : Int) :
    (mix m audio).1.nodes = m.graph.nodes ++ mixNodes (audio :: m.heard) ∧
      (mix m audio).2 = if m.heard.isEmpty then audio else (m.graph.size : Nat) := by
  unfold mix mixNodes
  cases m.heard <;> simp [Draft.addAudio, Draft.add, Graph.push]

section Measured

variable [Scalar α]

/-- A filter that draws an overlay while an export of some length shows it. -/
def DrawnAs (s : Scene α ι) (font : String) (total : α) (o : Overlay α) (f : Filter α) : Prop :=
  o.drawn (.whole s.width) (.whole s.height) o.start (Scalar.smaller o.finish total) font = .ok f

/-- The overlays that are shown are drawn in order, each over the picture before it. -/
theorem addOverlays_nodes {font : String} {total : α} {overlays : List (Overlay α)} {video : Int}
    {r : Draft α × Int} (hr : s.addOverlays font total g video overlays = .ok r) :
    ∃ texts, List.Forall₂ (s.DrawnAs font total) (overlays.filter (shows total)) texts ∧
      r.1.nodes = g.nodes ++ drawNodes video g.size texts ∧
      (layers video g.size texts.length).getLast? = some r.2 := by
  induction overlays generalizing g video with
  | nil =>
    cases hr
    exact ⟨[], .nil, by simp [drawNodes], rfl⟩
  | cons o rest ih =>
    rw [addOverlays] at hr
    split at hr
    next hshows =>
      split at hr
      · cases hr
      next f hf =>
      obtain ⟨texts, hdrawn, hnodes, hlast⟩ := ih hr
      rw [List.filter_cons_of_pos hshows]
      refine ⟨f :: texts, .cons hf hdrawn, ?_, ?_⟩
      · rw [hnodes, drawNodes_cons]
        simp [Graph.push, Graph.size]
      · simpa [Draft.add, Graph.push, Graph.size, layers, List.range'_succ] using hlast
    next hshows =>
      rw [List.filter_cons_of_neg hshows]
      exact ih hr

/-- The audio clips that start in time are played in order. -/
theorem addHeard_nodes {total : α} {clips : List (Clip α ι)} {m r : Mix α ι}
    (hr : s.addHeard total m clips = .ok r) :
    r.graph.nodes = m.graph.nodes ++
        ((audible total clips).zipIdx m.inputs.length).map s.trackNode ∧
      r.heard = m.heard ++
        (List.range' m.graph.size (audible total clips).length).map Int.ofNat := by
  induction clips generalizing m with
  | nil =>
    cases hr
    simp [audible]
  | cons clip rest ih =>
    rw [addHeard] at hr
    split at hr
    next hlate =>
      rw [audible, List.filter_cons_of_neg (by simpa using hlate)]
      exact ih hr
    next hheard =>
    rw [audible, List.filter_cons_of_pos (by simpa using hheard)]
    split at hr
    · cases hr
    next track htrack =>
    split at hr
    · cases hr
    next ms hms =>
    obtain ⟨hnodes, hindices⟩ := ih hr
    have hnode : s.trackNode (clip, m.inputs.length) = ⟨"audio_track", .audio,
        [.source m.inputs.length .audio], trackFilters clip track.gain ms ++ normalAudio⟩ := by
      simp [trackNode, gainOf, delayOf, htrack, hms, Except.toOption]
    constructor
    · rw [hnodes, List.zipIdx_cons, List.map_cons, hnode]
      simp [Graph.push, audible]
    · rw [hindices]
      simp [Graph.push, Graph.size, audible, List.range'_succ]

end Measured

end Scene

/-- The nodes behind those of the parts of a picture: the number of those, the strands that they
leave, the texts that are drawn and the nodes that play audio clips. -/
structure Finish (α : Type) where
  first : Nat
  strands : List Strand
  texts : List (Filter α)
  tracks : List (Node (Filter α))

namespace Finish

variable (f : Finish α)

/-- The assembled picture, and it with one text after another drawn over it. -/
def pictures : List Int := layers f.first (f.first + 2) f.texts.length

/-- The assembled sound, and the audio clips that it is mixed with. -/
def sounds : List Int :=
  ((f.first + 1 : Nat) : Int) ::
    (List.range' (f.first + 2 + f.texts.length) f.tracks.length).map Int.ofNat

/-- The picture in the end. -/
def picture : Int := f.pictures.getLast (List.cons_ne_nil _ _)

/-- The sound in the end. -/
def sound : Int :=
  if f.tracks.isEmpty then (f.first + 1 : Nat)
  else (f.first + 2 + f.texts.length + f.tracks.length : Nat)

/-- The nodes behind the assembled parts. -/
def later : List (Node (Filter α)) :=
  drawNodes f.first (f.first + 2) f.texts ++
    (f.tracks ++ (mixNodes f.sounds ++ outputNodes f.picture f.sound))

def nodes : List (Node (Filter α)) := assemblyNodes f.strands ++ f.later

theorem op_of_mem_later {n : Node (Filter α)} (htracks : ∀ n ∈ f.tracks, n.op = "audio_track")
    (h : n ∈ f.later) : n.op ∈ ["drawtext", "audio_track", "amix", "output"] := by
  simp only [later, List.mem_append] at h
  rcases h with h | h | h | h
  · simp [op_of_mem_drawNodes h]
  · simp [htracks n h]
  · simp [op_of_mem_mixNodes h]
  · simp [op_of_mem_outputNodes h]

end Finish

/-- What comes behind the parts. -/
theorem Scene.finish_nodes [Scalar α] {s : Scene α ι} {g : Draft α} {segments : List (Segment α ι)}
    {font : String} {total : α} {overlays : List (Overlay α)} {drawn : Draft α × Int}
    {inputs : List (Input ι)} {clips : List (Clip α ι)} {m : Mix α ι}
    (hdrawn : s.addOverlays font total (assemble g segments).1 (assemble g segments).2.video overlays =
      .ok drawn)
    (hm : s.addHeard total ⟨drawn.1, inputs, []⟩ clips = .ok m) :
    ∃ texts, List.Forall₂ (s.DrawnAs font total) (overlays.filter (shows total)) texts ∧
      let finish : Finish α := ⟨g.size, segments.map (·.strand), texts,
        ((audible total clips).zipIdx inputs.length).map s.trackNode⟩
      let mixed := mix m (assemble g segments).2.audio
      drawn.2 = finish.picture ∧ mixed.2 = finish.sound ∧
        mixed.1.nodes ++ outputNodes drawn.2 mixed.2 = g.nodes ++ finish.nodes := by
  obtain ⟨hassembled, hstrand⟩ := assemble_nodes (g := g) segments
  obtain ⟨texts, htexts, hdraws, hpicture⟩ := addOverlays_nodes hdrawn
  obtain ⟨htracks, hheard⟩ := addHeard_nodes hm
  obtain ⟨hmixed, hsound⟩ := mix_nodes m (assemble g segments).2.audio
  have hsize : Graph.size (assemble g segments).1 = g.size + 2 := by
    rw [Graph.size, hassembled, List.length_append]
    rfl
  have hdrawnSize : Graph.size drawn.1 = g.size + 2 + texts.length := by
    rw [Graph.size, hdraws, List.length_append, length_drawNodes]
    exact congrArg (· + _) hsize
  have hheard : m.heard = (List.range' (g.size + 2 + texts.length)
      (audible total clips).length).map Int.ofNat := by simpa [hdrawnSize] using hheard
  have hmixSize : Graph.size m.graph = g.size + 2 + texts.length + (audible total clips).length := by
    rw [Graph.size, htracks, List.length_append, List.length_map, List.length_zipIdx]
    exact congrArg (· + _) hdrawnSize
  rw [hstrand] at hdraws hpicture hmixed hsound ⊢
  rw [hsize] at hdraws hpicture
  refine ⟨texts, htexts, ?_⟩
  intro finish mixed
  have hlength : finish.tracks.length = (audible total clips).length := by
    simp [finish]
  have hdrawn2 : drawn.2 = finish.picture :=
    (Option.some.inj ((List.getLast?_eq_some_getLast _).symm.trans hpicture)).symm
  have hmixed2 : mixed.2 = finish.sound := by
    have hempty : m.heard.isEmpty = finish.tracks.isEmpty := by
      rw [Bool.eq_iff_iff]
      simp [hheard, finish]
    refine hsound.trans ?_
    rw [hmixSize, hempty, Finish.sound, hlength]
  have hsounds : ((g.size + 1 : Nat) : Int) :: m.heard = finish.sounds := by
    rw [hheard, Finish.sounds, hlength]
  refine ⟨hdrawn2, hmixed2, ?_⟩
  rw [show mixed.1.nodes = _ from hmixed, htracks, hdraws, hassembled, hsounds, hdrawn2, hmixed2]
  simp only [List.append_assoc]
  rfl

/-! ## Compiling -/

variable [Scalar α] [BEq ι] [Label ι α] {t : Timeline α ι} {library : Library α}
  {settings : ExportSettings} {font : String} {c : Compiled α ι}

theorem compile_rate (h : compile t library settings font = .ok c) : c.rate = settings.rate := by
  unfold compile at h
  rw [bind_eq_ok] at h
  obtain ⟨lane, hlane, h⟩ := h
  dsimp only at h
  split at h
  · cases h
  split at h
  · cases h
  split at h
  · cases h
  simp only [bind_eq_ok] at h
  obtain ⟨drawn, hdrawn, m, hm, h⟩ := h
  cases h
  rfl

/-- The nodes of an export are those of its parts, and behind them those that finish it. -/
theorem compile_nodes (h : compile t library settings font = .ok c) :
    let s := Scene.ofSettings t library settings
    ∃ lane parts texts, t.lane = .ok lane ∧
      (∀ n ∈ parts, n.OfPart s.fps) ∧
      List.Forall₂ (s.DrawnAs font c.duration) (t.overlays.filter (Scene.shows c.duration)) texts ∧
      let finish : Finish α := ⟨parts.length, c.segments.map (·.strand), texts,
        ((Scene.audible c.duration t.heardClips).zipIdx lane.length).map s.trackNode⟩
      c.graph.nodes = parts ++ finish.nodes ∧
        c.output = ⟨(c.graph.size : Int) - 2, (c.graph.size : Int) - 1⟩ := by
  intro s
  obtain ⟨lane, hlane, drawn, hdrawn, m, hm, hgraph, -, houtput, hsegments, hduration⟩ :=
    compile_eq_ok h
  obtain ⟨parts, hparts, hof⟩ :=
    Scene.addPieces_extends s Graph.empty lane (t.grouping lane) (t.grouping lane).pieces
  have hsize : Graph.size (s.addPieces lane (t.grouping lane) Graph.empty
      (t.grouping lane).pieces).1 = parts.length := congrArg List.length hparts
  obtain ⟨texts, htexts, -, -, hnodes⟩ := Scene.finish_nodes hdrawn hm
  rw [hparts, hsize, List.length_map] at hnodes
  rw [hduration, hsegments, houtput]
  refine ⟨lane, parts, texts, hlane, hof, htexts, ?_, ?_⟩
  · rw [hgraph]
    simpa [Draft.add, Graph.push, outputNodes, Graph.empty] using hnodes
  · rw [hgraph, Strand.mk.injEq]
    simp only [Draft.add, Graph.push, Graph.size, List.length_append, List.length_singleton]
    omega

end Montage
