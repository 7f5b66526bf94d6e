/-
What each part of a compiled timeline takes from the graph and leaves in it.

A strand is a pair of loose ends. A clip and a gap leave a strand, a join makes
one of two, and a run, the assembly, the overlays and the mix each hand on one at last:
`Scene.addPieces_wired` has the strands of all parts, and the lemmas after it
the way from these to a single one. Only clips read the inputs, the picture of each clip and
the sound of those that are not silent (`Scene.addPieces_readers`), and the mix after them
the sound of further inputs (`Scene.addHeard_readers`).
-/
import Mathlib.Data.List.Perm.Basic
import Montage.Export.Compile
import Montage.Proofs.Export.Wiring
import Montage.Proofs.Keyed
import Montage.Proofs.Layout.Pieces

namespace Montage

/-- The two nodes of a strand, not read yet. -/
def Strand.ends (s : Strand) : List LooseEnd := [(.video, s.video), (.audio, s.audio)]

theorem perm_ends (strands : List Strand) : (strands.flatMap Strand.ends).Perm
    (strands.map (fun s => (Stream.video, s.video)) ++
      strands.map fun s => (Stream.audio, s.audio)) := by
  rw [List.map_eq_flatMap, List.map_eq_flatMap]
  exact (List.flatMap_append_perm strands (fun s => [(Stream.video, s.video)])
    fun s => [(Stream.audio, s.audio)]).symm

variable {α ι : Type}

/-! ## Nodes -/

namespace Draft

variable {g : Draft α} {ends rest : List LooseEnd} {stream : Stream}

theorem wired_add (is : List Int) (h : g.Wired (is.map (Prod.mk stream) ++ rest)) (op : String)
    (filters : List (Filter α)) :
    (g.add op stream (is.map .node) filters).1.Wired
      ((stream, (g.add op stream (is.map .node) filters).2) :: rest) := by
  refine Graph.Wired.push (n := ⟨op, stream, is.map .node, filters⟩) _ h ?_ ?_ ?_
  · rw [Ref.filterMap_node?, List.map_map]
    exact (List.map_id _).symm
  · simp
  · simp

theorem wired_add_source (stream : Stream) (h : g.Wired ends) (op : String) (i : Int)
    (filters : List (Filter α)) :
    (g.add op stream [.source i stream] filters).1.Wired
      ((stream, (g.add op stream [.source i stream] filters).2) :: ends) :=
  Graph.Wired.push [] h rfl (by simp) (by simp)

/-- A node for each kind of stream, that reads some strands: they become one. -/
theorem wired_bundle (strands : List Strand)
    (h : g.Wired (strands.flatMap Strand.ends ++ rest)) (op op' : String)
    (filters filters' : List (Filter α)) :
    let video := g.add op .video ((strands.map (·.video)).map .node) filters
    let audio := video.1.add op' .audio ((strands.map (·.audio)).map .node) filters'
    audio.1.Wired ((⟨video.2, audio.2⟩ : Strand).ends ++ rest) := by
  have hv : g.Wired ((strands.map (·.video)).map (Prod.mk .video) ++
      ((strands.map (·.audio)).map (Prod.mk .audio) ++ rest)) := by
    refine h.perm ?_
    rw [List.map_map, List.map_map, ← List.append_assoc]
    exact (perm_ends strands).symm.append_right rest
  have ha := wired_add _ ((wired_add _ hv op filters).perm List.perm_middle) op' filters'
  exact ha.perm (List.Perm.swap _ _ _)

theorem readers_add (is : List Int) (op : String) (filters : List (Filter α)) :
    (g.add op stream (is.map .node) filters).1.readers = g.readers :=
  Graph.readers_push_of_not (by simp [Node.readsSource, Ref.isSource])

theorem readers_add_source (stream : Stream) (op : String) (i : Int) (filters : List (Filter α)) :
    (g.add op stream [.source i stream] filters).1.readers =
      g.readers ++ [⟨op, stream, [.source i stream], filters⟩] :=
  Graph.readers_push_of rfl

theorem readers_bundle (is is' : List Int) (op op' : String) (filters filters' : List (Filter α)) :
    ((g.add op .video (is.map .node) filters).1.add op' .audio (is'.map .node) filters').1.readers =
      g.readers :=
  (readers_add is' op' filters').trans (readers_add is op filters)

end Draft

namespace Scene

variable {s : Scene α ι} {g : Draft α} {ends : List LooseEnd}

/-! ## Gaps and joins -/

theorem addGap_wired (h : g.Wired ends) (d : α) :
    (s.addGap g d).1.Wired ((s.addGap g d).2.ends ++ ends) :=
  Draft.wired_bundle [] h "gap" "gap" _ _

theorem addJoin_wired {sofar next : Strand} {join : Join α ι}
    (h : g.Wired (sofar.ends ++ (next.ends ++ ends))) :
    (s.addJoin g sofar next join).1.Wired
      ((s.addJoin g sofar next join).2.ends ++ ends) := by
  have h' : g.Wired ([sofar, next].flatMap Strand.ends ++ ends) := by simpa using h
  unfold addJoin
  split
  · exact Draft.wired_bundle _ h' "xfade" "acrossfade" _ _
  · exact Draft.wired_bundle _ h' "concat" "concat" _ _

/-- The strands of a run that wait for their joins are used up one by one. -/
theorem addJoins_wired {strands : List (Nat × Strand)} (hn : (strands.map (·.1)).Nodup)
    {joins : List (Join α ι)} {waiting : List (Nat × Strand)} {sofar : Strand}
    (hsub : waiting ⊆ strands) (hw : waiting.map (·.1) = joins.map (·.right))
    (h : g.Wired (sofar.ends ++ (waiting.flatMap (·.2.ends) ++ ends))) :
    (s.addJoins strands g sofar joins).1.Wired
      ((s.addJoins strands g sofar joins).2.ends ++ ends) := by
  induction joins generalizing g sofar waiting with
  | nil =>
    have : waiting = [] := by simpa using hw
    subst this
    exact h
  | cons join joins ih =>
    obtain ⟨w, waiting, rfl⟩ : ∃ w ws, waiting = w :: ws :=
      List.exists_cons_of_ne_nil (by rintro rfl; simp at hw)
    rw [List.map_cons, List.map_cons, List.cons.injEq] at hw
    have hfind : strands.find? (fun x => x.1 == join.right) = some w :=
      find?_key_eq_some hn (hsub (List.mem_cons_self ..)) hw.1
    rw [List.flatMap_cons, List.append_assoc] at h
    rw [addJoins, hfind]
    exact ih (fun x hx => hsub (List.mem_cons_of_mem _ hx)) hw.2 (addJoin_wired h)

/-! ## Clips and runs -/

section Pieces

variable [Scalar α] [BEq ι] {lane : List (Clip α ι)} {grouping : Grouping α ι}

theorem addClip_wired (h : g.Wired ends) (index : Nat) (clip : Clip α ι)
    (fades : List (Transition α ι)) :
    (s.addClip g index clip fades).1.Wired
      ((s.addClip g index clip fades).2.ends ++ ends) := by
  have hv := Draft.wired_add_source .video h "clip" index
    (s.pictureFilters clip fades ++ normalVideo s.fps)
  cases hs : s.isSilent clip with
  | true =>
    simp only [addClip, hs, if_true]
    exact (Draft.wired_add [] hv "clip" _).perm (List.Perm.swap _ _ _)
  | false =>
    simp only [addClip, hs, Bool.false_eq_true, if_false]
    exact (Draft.wired_add_source _ hv "clip" index _).perm (List.Perm.swap _ _ _)

variable (s lane grouping) in
theorem addClips_wired (indices : List Nat) (h : g.Wired ends) :
    (s.addClips lane grouping g indices).1.Wired
      ((s.addClips lane grouping g indices).2.flatMap (·.2.ends) ++ ends) := by
  induction indices generalizing g ends with
  | nil => exact h
  | cons index rest ih =>
    rw [addClips]
    split
    · exact ih h
    · next clip _ =>
      have hrest := ih (addClip_wired (s := s) h index clip (grouping.fadesOf index))
      rw [List.flatMap_cons, List.append_assoc]
      exact hrest.perm (List.perm_append_comm_assoc _ _ _)

variable (s g grouping) in
/-- Each clip that is there has its strand. -/
theorem addClips_indices (indices : List Nat) (hlane : ∀ i ∈ indices, i < lane.length) :
    (s.addClips lane grouping g indices).2.map (·.1) = indices := by
  induction indices generalizing g with
  | nil => rfl
  | cons index rest ih =>
    rw [addClips]
    split
    · next hnone =>
      have := hlane index (by simp)
      rw [List.getElem?_eq_none_iff] at hnone
      omega
    · rw [List.map_cons, ih _ fun i hi => hlane i (by simp [hi])]

theorem addRun_wired {run : Run α ι} (hrun : run.Linked) (hn : run.clips.Nodup)
    (hlane : ∀ i ∈ run.clips, i < lane.length) (h : g.Wired ends) :
    (s.addRun lane grouping g run).1.Wired
      ((s.addRun lane grouping g run).2.ends ++ ends) := by
  have hstrands := addClips_wired s lane grouping run.clips h
  have hindices := addClips_indices s g grouping run.clips hlane
  obtain ⟨first, rest, hclips⟩ := List.exists_cons_of_ne_nil hrun.nonempty
  unfold addRun
  split
  next g' strands hg =>
  rw [hg] at hstrands hindices
  cases strands with
  | nil => simp [hclips] at hindices
  | cons st waiting =>
    -- The strands after the first are, in order, those that the joins ask for.
    have hw : waiting.map (·.1) = run.joins.map (·.right) := by
      rw [hrun.rights, ← hindices]
      rfl
    rw [List.flatMap_cons, List.append_assoc] at hstrands
    exact addJoins_wired (hindices ▸ hn) (List.subset_cons_self ..) hw hstrands

/-- The runs among some parts link their clips, which are clips of the lane. -/
def Laid (lane : List (Clip α ι)) (ps : List (Piece α ι)) : Prop :=
  ∀ r, .run r ∈ ps → r.Linked ∧ r.clips.Nodup ∧ ∀ i ∈ r.clips, i < lane.length

variable (s grouping) in
theorem addPieces_wired {ps : List (Piece α ι)} (hps : Laid lane ps) (h : g.Wired ends) :
    (s.addPieces lane grouping g ps).1.Wired
      ((s.addPieces lane grouping g ps).2.flatMap (·.strand.ends) ++ ends) := by
  induction ps generalizing g ends with
  | nil => exact h
  | cons piece rest ih =>
    have hrest : Laid lane rest := fun r hr => hps r (List.mem_cons_of_mem _ hr)
    cases piece with
    | gap d =>
      simp only [addPieces, List.flatMap_cons, List.append_assoc]
      exact (ih hrest (addGap_wired h d)).perm (List.perm_append_comm_assoc _ _ _)
    | run r =>
      obtain ⟨hlinked, hn, hlane⟩ := hps r (by simp)
      simp only [addPieces, List.flatMap_cons, List.append_assoc]
      exact (ih hrest (addRun_wired hlinked hn hlane h)).perm (List.perm_append_comm_assoc _ _ _)

end Pieces

/-! ## From the parts to the outputs -/

theorem assemble_wired {segments : List (Segment α ι)}
    (h : g.Wired (segments.flatMap (·.strand.ends) ++ ends)) :
    (assemble g segments).1.Wired ((assemble g segments).2.ends ++ ends) := by
  have h' : g.Wired ((segments.map (·.strand)).flatMap Strand.ends ++ ends) := by
    rwa [List.flatMap_map]
  let joined (stream : Stream) : List (Filter α) :=
    if segments.length = 1 then [.pass stream] else [.concat segments.length stream]
  have hb := Draft.wired_bundle _ h' "assemble" "assemble" (joined .video) (joined .audio)
  simp only [List.map_map] at hb
  exact hb

theorem mix_wired {m : Mix α ι} {audio : Int}
    (h : m.graph.Wired ((.audio, audio) :: (m.heard.map (Prod.mk .audio) ++ ends))) :
    (mix m audio).1.Wired ((.audio, (mix m audio).2) :: ends) := by
  unfold mix
  split
  · next hnil =>
    rw [List.isEmpty_iff.1 hnil] at h
    exact h
  · exact Draft.wired_add (audio :: m.heard) h "amix" _

section Sound

variable [Scalar α]

theorem addOverlays_wired {font : String} {total : α} {overlays : List (Overlay α)}
    {video : Int} {r : Draft α × Int} (hr : s.addOverlays font total g video overlays = .ok r)
    (h : g.Wired ((.video, video) :: ends)) : r.1.Wired ((.video, r.2) :: ends) := by
  induction overlays generalizing g video with
  | nil =>
    cases hr
    exact h
  | cons o rest ih =>
    rw [addOverlays] at hr
    split at hr
    · split at hr
      · cases hr
      · exact ih hr (Draft.wired_add [video] h "drawtext" _)
    · exact ih hr h

variable (ends) in
theorem addHeard_wired {total : α} {clips : List (Clip α ι)} {m r : Mix α ι}
    (hr : s.addHeard total m clips = .ok r)
    (h : m.graph.Wired (m.heard.map (Prod.mk .audio) ++ ends)) :
    r.graph.Wired (r.heard.map (Prod.mk .audio) ++ ends) := by
  induction clips generalizing m with
  | nil =>
    cases hr
    exact h
  | cons clip rest ih =>
    rw [addHeard] at hr
    split at hr
    · exact ih hr h
    · split at hr
      · cases hr
      · split at hr
        · cases hr
        · refine ih hr ((Draft.wired_add_source .audio h "audio_track" _ _).perm ?_)
          rw [List.map_append, List.append_assoc]
          exact List.perm_middle

end Sound

/-! ## What reads the inputs -/

theorem addGap_readers (d : α) : (s.addGap g d).1.readers = g.readers :=
  Draft.readers_bundle [] [] "gap" "gap" _ _

theorem addJoin_readers (sofar next : Strand) (join : Join α ι) :
    (s.addJoin g sofar next join).1.readers = g.readers := by
  unfold addJoin
  split
  · exact Draft.readers_bundle [_, _] [_, _] "xfade" "acrossfade" _ _
  · exact Draft.readers_bundle [_, _] [_, _] "concat" "concat" _ _

theorem addJoins_readers (strands : List (Nat × Strand)) (joins : List (Join α ι))
    (sofar : Strand) : (s.addJoins strands g sofar joins).1.readers = g.readers := by
  induction joins generalizing g sofar with
  | nil => rfl
  | cons join joins ih =>
    rw [addJoins]
    split
    · exact ih sofar
    · exact (ih _).trans (addJoin_readers ..)

theorem assemble_readers (segments : List (Segment α ι)) :
    (assemble g segments).1.readers = g.readers := by
  let joined (stream : Stream) : List (Filter α) :=
    if segments.length = 1 then [.pass stream] else [.concat segments.length stream]
  have hb := Draft.readers_bundle (g := g) (segments.map (·.strand.video))
    (segments.map (·.strand.audio)) "assemble" "assemble" (joined .video) (joined .audio)
  simp only [List.map_map] at hb
  exact hb

theorem mix_readers (m : Mix α ι) (audio : Int) :
    (mix m audio).1.readers = m.graph.readers := by
  unfold mix
  split
  · rfl
  · exact Draft.readers_add (audio :: m.heard) "amix" _

section Inputs

variable [Scalar α]

theorem addOverlays_readers {font : String} {total : α} {overlays : List (Overlay α)}
    {video : Int} {r : Draft α × Int} (hr : s.addOverlays font total g video overlays = .ok r) :
    r.1.readers = g.readers := by
  induction overlays generalizing g video with
  | nil =>
    cases hr
    rfl
  | cons o rest ih =>
    rw [addOverlays] at hr
    split at hr
    · split at hr
      · cases hr
      · exact (ih hr).trans (Draft.readers_add [video] "drawtext" _)
    · exact ih hr

/-- The audio clips that are heard come in as further inputs, each read by a node of its own. -/
theorem addHeard_readers {total : α} {clips : List (Clip α ι)} {m r : Mix α ι}
    (hr : s.addHeard total m clips = .ok r) :
    ∃ tracks : List (Node (Filter α)), r.graph.readers = m.graph.readers ++ tracks ∧
      m.inputs <+: r.inputs ∧ r.inputs.length = m.inputs.length + tracks.length ∧
      tracks.map (fun n => (n.op, n.inputs)) =
        (List.range' m.inputs.length tracks.length).map fun (i : Nat) =>
          ("audio_track", [Ref.source i .audio]) := by
  induction clips generalizing m with
  | nil =>
    cases hr
    exact ⟨[], by simp, List.prefix_rfl, rfl, rfl⟩
  | cons clip rest ih =>
    rw [addHeard] at hr
    split at hr
    · exact ih hr
    · split at hr
      · cases hr
      · split at hr
        · cases hr
        · next track _ _ ms _ =>
          obtain ⟨tracks, hreaders, hpre, hlength, htracks⟩ := ih hr
          refine ⟨⟨"audio_track", .audio, [.source m.inputs.length .audio],
            trackFilters clip track.gain ms ++ normalAudio⟩ :: tracks, ?_,
            (List.prefix_append ..).trans hpre, ?_, ?_⟩
          · rw [hreaders]
            exact (congrArg (· ++ tracks) (Draft.readers_add_source ..)).trans
              (List.append_assoc _ _ _)
          · simp only [hlength, List.length_append, List.length_cons, List.length_nil]
            omega
          · rw [List.length_append, List.length_singleton] at htracks
            rw [List.map_cons, htracks]
            rfl

variable [BEq ι] {lane : List (Clip α ι)} {grouping : Grouping α ι}

/-- The node of a clip's picture. -/
def pictureNode (s : Scene α ι) (index : Nat) (clip : Clip α ι) (fades : List (Transition α ι)) :
    Node (Filter α) :=
  ⟨"clip", .video, [.source index .video], s.pictureFilters clip fades ++ normalVideo s.fps⟩

/-- The nodes that read the input of a clip: that of its picture, and that of its own sound. -/
def clipReaders (s : Scene α ι) (index : Nat) (clip : Clip α ι) (fades : List (Transition α ι)) :
    List (Node (Filter α)) :=
  s.pictureNode index clip fades ::
    if s.isSilent clip then []
    else [⟨"clip", .audio, [.source index .audio], s.soundFilters clip fades ++ normalAudio⟩]

/-- The nodes that read the input of the clip with an index. -/
def laneReaders (s : Scene α ι) (lane : List (Clip α ι)) (grouping : Grouping α ι) (index : Nat) :
    List (Node (Filter α)) :=
  match lane[index]? with
  | none => []
  | some clip => s.clipReaders index clip (grouping.fadesOf index)

theorem addClip_readers (index : Nat) (clip : Clip α ι) (fades : List (Transition α ι)) :
    (s.addClip g index clip fades).1.readers =
      g.readers ++ s.clipReaders index clip fades := by
  have hv := Draft.readers_add_source (g := g) .video "clip" index
    (s.pictureFilters clip fades ++ normalVideo s.fps)
  cases hs : s.isSilent clip with
  | true =>
    simp only [addClip, clipReaders, hs, if_true]
    exact (Draft.readers_add [] "clip" _).trans hv
  | false =>
    simp only [addClip, clipReaders, hs, Bool.false_eq_true, if_false]
    refine (Draft.readers_add_source _ "clip" index _).trans ?_
    exact (congrArg (· ++ _) hv).trans (List.append_assoc _ _ _)

variable (s g lane grouping) in
theorem addClips_readers (indices : List Nat) :
    (s.addClips lane grouping g indices).1.readers =
      g.readers ++ indices.flatMap (s.laneReaders lane grouping) := by
  induction indices generalizing g with
  | nil => simp [addClips]
  | cons index rest ih =>
    rw [List.flatMap_cons]
    cases h : lane[index]? with
    | none => simp only [addClips, laneReaders, h, ih, List.nil_append]
    | some clip =>
      simp only [addClips, laneReaders, h, ih, addClip_readers, List.append_assoc]

theorem addRun_readers (run : Run α ι) :
    (s.addRun lane grouping g run).1.readers =
      g.readers ++ run.clips.flatMap (s.laneReaders lane grouping) := by
  have hclips := addClips_readers s g lane grouping run.clips
  unfold addRun
  split
  next g' strands hg =>
  rw [hg] at hclips
  split
  · exact hclips
  · exact (addJoins_readers ..).trans hclips

theorem addPieces_readers (ps : List (Piece α ι)) :
    (s.addPieces lane grouping g ps).1.readers =
      g.readers ++ (ps.flatMap Piece.clips).flatMap (s.laneReaders lane grouping) := by
  induction ps generalizing g with
  | nil => simp [addPieces]
  | cons piece rest ih =>
    cases piece with
    | gap d =>
      simp only [addPieces, List.flatMap_cons, ih, addGap_readers, Piece.clips, List.nil_append]
    | run r =>
      simp only [addPieces, List.flatMap_cons, ih, addRun_readers, Piece.clips,
        List.flatMap_append, List.append_assoc]

end Inputs

end Scene

end Montage
