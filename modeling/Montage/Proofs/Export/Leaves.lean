/-
The nodes of a compiled timeline that are made from no other node.

Every gap has a node for its picture and one for its sound, and so has every clip of the lane, silent
or not; they come in the order of the picture. Every audio clip that is heard has a node that plays
it, delayed. All other nodes are made from these (`compile_origins`). Without those of the gaps
they are the nodes that are made for a single clip (`compile_leaves`).
-/
import Montage.Proofs.Export.Compiled

namespace Montage

variable {α ι : Type}

/-- Whether a node is made for a single clip. -/
def Node.isLeaf {φ : Type} (n : Node φ) : Bool := n.op == "clip" || n.op == "audio_track"

/-- The nodes that are made for a single clip, in order. -/
def Graph.leaves {φ : Type} (g : Graph φ) : List (Node φ) := g.nodes.filter Node.isLeaf

/-- Whether a node is made for a gap or for a single clip, from no other node. -/
def Node.isOrigin {φ : Type} (n : Node φ) : Bool := n.op == "gap" || n.isLeaf

/-- The nodes that are made from no other node, in order. -/
def Graph.origins {φ : Type} (g : Graph φ) : List (Node φ) := g.nodes.filter Node.isOrigin

theorem Graph.leaves_eq {φ : Type} (g : Graph φ) : g.leaves = g.origins.filter Node.isLeaf := by
  rw [leaves, origins, List.filter_filter]
  refine List.filter_congr fun n _ => ?_
  cases hleaf : n.isLeaf <;> simp [Node.isOrigin, hleaf]

namespace Draft

variable {g : Draft α} {op : String} {stream : Stream} {inputs : List Ref} {filters : List (Filter α)}

theorem origins_add (h : (op == "gap" || (op == "clip" || op == "audio_track")) = true) :
    (g.add op stream inputs filters).1.origins = g.origins ++ [⟨op, stream, inputs, filters⟩] := by
  have horigin : Node.isOrigin (⟨op, stream, inputs, filters⟩ : Node (Filter α)) = true := h
  simp [add, Graph.push, Graph.origins, List.filter_append, horigin]

theorem origins_add_other (h : (op == "gap" || (op == "clip" || op == "audio_track")) = false) :
    (g.add op stream inputs filters).1.origins = g.origins := by
  have horigin : Node.isOrigin (⟨op, stream, inputs, filters⟩ : Node (Filter α)) = false := h
  simp [add, Graph.push, Graph.origins, List.filter_append, horigin]

end Draft

namespace Scene

variable {s : Scene α ι} {g : Draft α}

/-! ## Nodes that are made from others -/

theorem addJoin_origins (sofar next : Strand) (join : Join α ι) :
    (s.addJoin g sofar next join).1.origins = g.origins := by
  unfold addJoin
  split <;> exact (Draft.origins_add_other rfl).trans (Draft.origins_add_other rfl)

theorem addJoins_origins (strands : List (Nat × Strand)) (joins : List (Join α ι))
    (sofar : Strand) : (s.addJoins strands g sofar joins).1.origins = g.origins := by
  induction joins generalizing g sofar with
  | nil => rfl
  | cons join joins ih =>
    rw [addJoins]
    split
    · exact ih sofar
    · exact (ih _).trans (addJoin_origins ..)

theorem assemble_origins (segments : List (Segment α ι)) :
    (assemble g segments).1.origins = g.origins :=
  (Draft.origins_add_other rfl).trans (Draft.origins_add_other rfl)

theorem mix_origins (m : Mix α ι) (audio : Int) : (mix m audio).1.origins = m.graph.origins := by
  unfold mix
  split
  · rfl
  · exact Draft.origins_add_other rfl

variable [Scalar α]

theorem addOverlays_origins {font : String} {total : α} {overlays : List (Overlay α)}
    {video : Int} {r : Draft α × Int} (hr : s.addOverlays font total g video overlays = .ok r) :
    r.1.origins = g.origins := by
  induction overlays generalizing g video with
  | nil =>
    cases hr
    rfl
  | cons o rest ih =>
    rw [addOverlays] at hr
    split at hr
    · split at hr
      · cases hr
      · exact (ih hr).trans (Draft.origins_add_other rfl)
    · exact ih hr

/-! ## Audio clips -/

/-- The loudness of a clip's track. -/
def gainOf (s : Scene α ι) (clip : Clip α ι) : α :=
  ((s.timeline.lastTrack? clip.trackId).map (·.gain)).getD 1.0

/-- The start of a clip in milliseconds. -/
def delayOf (clip : Clip α ι) : Int := (measure (clip.start * 1000.0)).toOption.getD 0

/-- The node that plays an audio clip from the input with an index. -/
def trackNode (s : Scene α ι) (p : Clip α ι × Nat) : Node (Filter α) :=
  ⟨"audio_track", .audio, [.source p.2 .audio],
    trackFilters p.1 (s.gainOf p.1) (delayOf p.1) ++ normalAudio⟩

/-- The audio clips that start within an export of some length. -/
def audible (total : α) (clips : List (Clip α ι)) : List (Clip α ι) :=
  clips.filter fun c => !decide (total ≤ c.start)

/-- The audio clips that start in time come in as further inputs, each with a node that plays it. -/
theorem addHeard_origins {total : α} {clips : List (Clip α ι)} {m r : Mix α ι}
    (hr : s.addHeard total m clips = .ok r) :
    r.inputs = m.inputs ++ (audible total clips).map (fun c => s.input c .audio) ∧
      r.graph.origins = m.graph.origins ++
        ((audible total clips).zipIdx m.inputs.length).map s.trackNode := by
  induction clips generalizing m with
  | nil =>
    cases hr
    simp [audible]
  | cons clip rest ih =>
    rw [addHeard] at hr
    split at hr
    next hlate =>
      rw [audible, List.filter_cons_of_neg (by simpa using hlate)]
      exact ih hr
    next hheard =>
    rw [audible, List.filter_cons_of_pos (by simpa using hheard)]
    split at hr
    · cases hr
    next track htrack =>
    split at hr
    · cases hr
    next ms hms =>
    obtain ⟨hinputs, horigins⟩ := ih hr
    have hnode : s.trackNode (clip, m.inputs.length) = ⟨"audio_track", .audio,
        [.source m.inputs.length .audio], trackFilters clip track.gain ms ++ normalAudio⟩ := by
      simp [trackNode, gainOf, delayOf, htrack, hms, Except.toOption]
    constructor
    · rw [hinputs, List.append_assoc]
      rfl
    · rw [horigins, List.length_append]
      refine (congrArg (· ++ _) (Draft.origins_add rfl)).trans ?_
      rw [← hnode, List.append_assoc]
      rfl

/-! ## Clips of the lane -/

variable [BEq ι] {lane : List (Clip α ι)} {grouping : Grouping α ι}

/-- The node of a clip's own sound. -/
def soundNode (s : Scene α ι) (index : Nat) (clip : Clip α ι) (fades : List (Transition α ι)) :
    Node (Filter α) :=
  if s.isSilent clip then ⟨"clip", .audio, [], [.silence clip.visibleDuration] ++ normalAudio⟩
  else ⟨"clip", .audio, [.source index .audio], s.soundFilters clip fades ++ normalAudio⟩

/-- The nodes of the clip with an index. -/
def laneNodes (s : Scene α ι) (lane : List (Clip α ι)) (grouping : Grouping α ι) (index : Nat) :
    List (Node (Filter α)) :=
  match lane[index]? with
  | none => []
  | some clip =>
    [s.pictureNode index clip (grouping.fadesOf index), s.soundNode index clip (grouping.fadesOf index)]

theorem addClip_origins (index : Nat) (clip : Clip α ι) (fades : List (Transition α ι)) :
    (s.addClip g index clip fades).1.origins =
      g.origins ++ [s.pictureNode index clip fades, s.soundNode index clip fades] := by
  have hpicture : (g.addVideo s.fps "clip" [.source index .video] (s.pictureFilters clip fades)).1.origins =
      g.origins ++ [s.pictureNode index clip fades] := Draft.origins_add rfl
  have hboth : g.origins ++ [s.pictureNode index clip fades, s.soundNode index clip fades] =
      (g.origins ++ [s.pictureNode index clip fades]) ++ [s.soundNode index clip fades] := by simp
  rw [hboth, ← hpicture]
  cases hs : s.isSilent clip with
  | true =>
    simp only [addClip, soundNode, hs, if_true]
    exact Draft.origins_add (by rfl)
  | false =>
    simp only [addClip, soundNode, hs, Bool.false_eq_true, if_false]
    exact Draft.origins_add (by rfl)

variable (s g lane grouping) in
theorem addClips_origins (indices : List Nat) :
    (s.addClips lane grouping g indices).1.origins =
      g.origins ++ indices.flatMap (s.laneNodes lane grouping) := by
  induction indices generalizing g with
  | nil => simp [addClips]
  | cons index rest ih =>
    rw [List.flatMap_cons]
    cases h : lane[index]? with
    | none => simp only [addClips, laneNodes, h, ih, List.nil_append]
    | some clip => simp only [addClips, laneNodes, h, ih, addClip_origins, List.append_assoc]

theorem addRun_origins (run : Run α ι) :
    (s.addRun lane grouping g run).1.origins =
      g.origins ++ run.clips.flatMap (s.laneNodes lane grouping) := by
  have hclips := addClips_origins s g lane grouping run.clips
  unfold addRun
  split
  next g' strands hg =>
  rw [hg] at hclips
  split
  · exact hclips
  · exact (addJoins_origins ..).trans hclips

/-! ## Parts of the picture -/

/-- The nodes of a gap. -/
def gapNodes (s : Scene α ι) (d : α) : List (Node (Filter α)) :=
  [⟨"gap", .video, [], .colorSource "black" s.width s.height d s.fps :: normalVideo s.fps⟩,
    ⟨"gap", .audio, [], .silence d :: normalAudio⟩]

omit [Scalar α] [BEq ι] in
theorem addGap_origins (d : α) : (s.addGap g d).1.origins = g.origins ++ s.gapNodes d := by
  refine (Draft.origins_add rfl).trans ?_
  refine (congrArg (· ++ _) (Draft.origins_add rfl)).trans ?_
  rw [List.append_assoc]
  rfl

theorem addPieces_origins (ps : List (Piece α ι)) :
    (s.addPieces lane grouping g ps).1.origins =
      g.origins ++ ps.flatMap (Piece.opened s.gapNodes (s.laneNodes lane grouping)) := by
  induction ps generalizing g with
  | nil => simp [addPieces]
  | cons piece rest ih =>
    cases piece with
    | gap d =>
      simp only [addPieces, List.flatMap_cons, ih, addGap_origins, Piece.opened, List.append_assoc]
    | run r =>
      simp only [addPieces, List.flatMap_cons, ih, addRun_origins, Piece.opened, List.append_assoc]

theorem op_of_mem_laneNodes {index : Nat} {n : Node (Filter α)}
    (h : n ∈ s.laneNodes lane grouping index) : n.op = "clip" := by
  unfold laneNodes soundNode at h
  split at h
  · cases h
  · rw [List.mem_pair] at h
    rcases h with rfl | rfl
    · rfl
    · split <;> rfl

theorem filter_laneNodes_isLeaf (index : Nat) :
    (s.laneNodes lane grouping index).filter Node.isLeaf = s.laneNodes lane grouping index :=
  List.filter_eq_self.2 fun n hn => by simp [Node.isLeaf, op_of_mem_laneNodes hn]

end Scene

/-! ## Compiling -/

section Compile

variable [Scalar α] [BEq ι] [Label ι α] {t : Timeline α ι} {library : Library α}
  {settings : ExportSettings} {font : String} {c : Compiled α ι}

theorem compile_warnings (h : compile t library settings font = .ok c) {lane : List (Clip α ι)}
    (hlane : t.lane = .ok lane) : c.warnings = overlapWarnings 0.0 lane := by
  unfold compile at h
  rw [hlane] at h
  simp only [bind, Except.bind] at h
  split at h
  · cases h
  split at h
  · cases h
  split at h
  · cases h
  split at h
  · cases h
  split at h
  · cases h
  · cases h
    rfl

/-- The clips of the lane and the audio clips that are heard come in as inputs, in this order, and
the nodes that are made from no other node are those of the parts of the picture and those that
play an audio clip. -/
theorem compile_origins (h : compile t library settings font = .ok c) :
    let s := Scene.ofSettings t library settings
    ∃ lane, t.lane = .ok lane ∧ c.duration = (t.grouping lane).duration ∧
      c.inputs = lane.map (fun clip => s.input clip clip.kind) ++
        (Scene.audible c.duration t.heardClips).map (fun clip => s.input clip .audio) ∧
      c.graph.origins = (t.grouping lane).pieces.flatMap
          (Piece.opened s.gapNodes (s.laneNodes lane (t.grouping lane))) ++
        ((Scene.audible c.duration t.heardClips).zipIdx lane.length).map s.trackNode := by
  obtain ⟨lane, hlane, drawn, hdrawn, m, hm, hgraph, hinputs, -, -, hduration⟩ := compile_eq_ok h
  obtain ⟨hm, hheard⟩ := Scene.addHeard_origins hm
  have hout : c.graph.origins = m.graph.origins := by
    rw [hgraph]
    exact (Draft.origins_add_other rfl).trans
      ((Draft.origins_add_other rfl).trans (Scene.mix_origins m _))
  refine ⟨lane, hlane, hduration, by rw [hinputs, hm, hduration], ?_⟩
  rw [hout, hheard, Scene.addOverlays_origins hdrawn, Scene.assemble_origins,
    Scene.addPieces_origins, hduration, List.length_map]
  rfl

/-- The clips of the lane and the audio clips that are heard come in as inputs, in this order, and
the nodes that are made for a single clip are those that take them in. -/
theorem compile_leaves (h : compile t library settings font = .ok c) :
    let s := Scene.ofSettings t library settings
    ∃ lane, t.lane = .ok lane ∧ c.duration = (t.grouping lane).duration ∧
      c.inputs = lane.map (fun clip => s.input clip clip.kind) ++
        (Scene.audible c.duration t.heardClips).map (fun clip => s.input clip .audio) ∧
      c.graph.leaves = (List.range lane.length).flatMap (s.laneNodes lane (t.grouping lane)) ++
        ((Scene.audible c.duration t.heardClips).zipIdx lane.length).map s.trackNode := by
  obtain ⟨lane, hlane, hduration, hinputs, horigins⟩ := compile_origins h
  have htracks : ∀ p ∈ (Scene.audible c.duration t.heardClips).zipIdx lane.length,
      ((Scene.ofSettings t library settings).trackNode p).isLeaf = true := fun _ _ => rfl
  have hgap (i : Nat) : ((gapBefore? (detectGaps lane) i).elim []
      (Scene.ofSettings t library settings).gapNodes).filter Node.isLeaf = [] := by
    cases gapBefore? (detectGaps lane) i <;> rfl
  refine ⟨lane, hlane, hduration, hinputs, ?_⟩
  rw [Graph.leaves_eq, horigins, List.filter_append, List.filter_eq_self.2 (List.forall_mem_map.2 htracks),
    Timeline.grouping, groupClips, opened_pieces, List.length_map, List.filter_flatMap]
  simp only [List.filter_append, hgap, Scene.filter_laneNodes_isLeaf, List.nil_append]

end Compile

end Montage
