/-
Picture and sound of a compiled timeline are equally long.

The picture of a run lasts as its offsets say and its sound as its overlaps
say. They agree as a join never overlaps more than there is of the run (`Builds`), so
each part of the export leaves a strand of its own length (`Scene.addPieces_lasts`), and so
does the whole (`compile_inStep`).
-/
import Montage.Proofs.Export.Compiled
import Montage.Proofs.Export.Measure
import Montage.Proofs.Layout.Strip

namespace Montage

variable {ι : Type}

/-! ## Runs -/

/-- Joins that make a run of some length from a shorter one, the clips being of some
lengths. -/
inductive Builds (len : Nat → Rat) : Rat → List (Join Rat ι) → Rat → Prop where
  | nil {total : Rat} : Builds len total [] total
  | cons {total final : Rat} {join : Join Rat ι} {joins : List (Join Rat ι)}
      (cut : join.transition = none → join.overlap = 0)
      (left : join.overlap ≤ total) (right : join.overlap ≤ len join.right)
      (offset : join.offset = total - join.overlap)
      (rest : Builds len (join.offset + len join.right) joins final) :
      Builds len total (join :: joins) final

theorem Builds.concat {len : Nat → Rat} {total final : Rat} {joins : List (Join Rat ι)}
    {join : Join Rat ι} (h : Builds len total joins final)
    (cut : join.transition = none → join.overlap = 0) (left : join.overlap ≤ final)
    (right : join.overlap ≤ len join.right) (offset : join.offset = final - join.overlap) :
    Builds len total (joins ++ [join]) (join.offset + len join.right) := by
  induction h with
  | nil => exact .cons cut left right offset .nil
  | cons cut' left' right' offset' _ ih => exact .cons cut' left' right' offset' (ih left offset)

/-- A run whose joins make it from its first clip. -/
def Run.Built (len : Nat → Rat) (r : Run Rat ι) : Prop :=
  ∃ first rest, r.clips = first :: rest ∧ Builds len (len first) r.joins r.duration

theorem Run.built_single (len : Nat → Rat) (i : Nat) :
    (Run.single i (len i) : Run Rat ι).Built len := ⟨i, [], rfl, .nil⟩

/-- A join overlaps no more than all of either clip. -/
theorem Join.make_overlap_le (index : Nat) (x : Option (Transition Rat ι))
    (total : Rat) {left right : Rat} (hleft : 0 < left) (hright : 0 < right) :
    (Join.make index x total left right).overlap ≤ left ∧
      (Join.make index x total left right).overlap ≤ right := by
  cases x with
  | none => exact ⟨by simpa [Join.make] using hleft.le, by simpa [Join.make] using hright.le⟩
  | some y =>
    simp only [Join.make, Scalar.smaller_eq_min, maxOverlapShare_eq]
    exact ⟨(min_le_left _ _).trans ((min_le_right _ _).trans (by linarith)),
      (min_le_right _ _).trans (by linarith)⟩

/-- An open run is no shorter than its last clip, and one clip more leaves it so. -/
theorem Run.Built.grow {len : Nat → Rat} {r : Run Rat ι} {i : Nat}
    {table : TransitionTable Rat ι} (h : r.Built len) (hwhole : len i ≤ r.duration)
    (hi : 0 < len i) (hnext : 0 < len (i + 1)) :
    (r.grow table len i).Built len ∧ len (i + 1) ≤ (r.grow table len i).duration := by
  obtain ⟨first, rest, hclips, hjoins⟩ := h
  obtain ⟨hleft, hright⟩ := Join.make_overlap_le i (table.claim? i) r.duration hi hnext
  have hoffset := Join.make_offset (hleft.trans hwhole)
  have hcut (hx : (Join.make i (table.claim? i) r.duration (len i) (len (i + 1))).transition =
      none) : (Join.make i (table.claim? i) r.duration (len i) (len (i + 1))).overlap = 0 := by
    rw [Join.make_transition] at hx
    simp [hx, Join.make]
  refine ⟨⟨first, rest ++ [i + 1], by simp [Run.grow, Run.extend, hclips], ?_⟩, ?_⟩
  · have hbuilt := hjoins.concat hcut (hleft.trans hwhole) (by rwa [Join.make_right]) hoffset
    rwa [Join.make_right] at hbuilt
  · simp only [Run.grow, Run.extend, hoffset]
    linarith

theorem built_of_mem_pieces {lane : List (Clip Rat ι)}
    (hlane : ∀ c ∈ lane, 0 < c.visibleDuration) {gaps : List (Gap Rat)}
    {table : TransitionTable Rat ι} {r : Run Rat ι}
    (hr : .run r ∈ pieces gaps table (lane.map Clip.visibleDuration)) :
    r.Built (lengthAt lane) := by
  have hpos : ∀ i < lane.length, 0 < lengthAt lane i := fun i hi => by
    rw [lengthAt_eq (List.getElem?_eq_getElem hi)]
    exact hlane _ (List.getElem_mem hi)
  rw [eq_map_getD (lane.map Clip.visibleDuration) 0, List.length_map] at hr
  obtain ⟨i, -, hbuilt, -⟩ := exists_of_mem_pieces
    (P := fun r i => r.Built (lengthAt lane) ∧ lengthAt lane i ≤ r.duration)
    (fun i _ => ⟨Run.built_single _ i, le_rfl⟩)
    (fun r i hi hr => hr.1.grow hr.2 (hpos i (by omega)) (hpos _ hi)) hr
  exact hbuilt

/-! ## Clips and gaps -/

theorem keeping_fadeFilters (x : Transition Rat ι) (d : Rat) : Keeping (x.fadeFilters d) := by
  unfold Transition.fadeFilters
  split
  · simp [Keeping]
  · cases x.side <;> dsimp only <;> split <;> simp [Keeping, Filter.length]

theorem keeping_soundFadeFilters (x : Transition Rat ι) (d : Rat) :
    Keeping (x.soundFadeFilters d) := by
  unfold Transition.soundFadeFilters
  split
  · simp [Keeping]
  · cases x.side <;> simp [Keeping, Filter.length]

theorem keeping_look (l : Look Rat ι) : Keeping l.filters := by
  unfold Look.filters
  refine ((Keeping.append ?_ ?_).append ?_).append ?_ <;>
    split <;> simp [Keeping, Filter.length]

/-- A graph with more nodes than a draft, and a strand in it that lasts some time. -/
structure Draft.Adds (g : Draft Rat) (r : Draft Rat × Strand) (d : Rat) : Prop where
  grows : g.Grows r.1
  lasts : r.1.Lasts r.2 d

/-- Two nodes that are equally long, neither of which fades or assembles. -/
theorem Draft.adds_pair {g : Draft Rat} {v a : Node (Filter Rat)} {d : Rat} (op : String)
    (hop : op ∉ ["xfade", "acrossfade", "assemble"]) (hvop : v.op = op) (haop : a.op = op)
    (hv : v.length g.lengths = d) (ha : a.length (g.push v).lengths = d) :
    g.Adds ((g.push v).push a, ⟨g.size, (g.push v).size⟩) d := by
  have hgrows : g.Grows (g.push v) := Graph.grows_push (hvop ▸ hop)
  exact ⟨hgrows.trans (Graph.grows_push (haop ▸ hop)), Graph.lasts_pair hv ha⟩

namespace Scene

variable {s : Scene Rat ι} {g : Draft Rat}

theorem addGap_adds (d : Rat) : g.Adds (s.addGap g d) d :=
  Draft.adds_pair "gap" (by decide) rfl rfl rfl rfl

theorem keeping_cropFilters (clip : Clip Rat ι) : Keeping (cropFilters clip) := by
  unfold cropFilters
  split
  · split <;> simp [Keeping, Filter.length]
  · simp [Keeping]

theorem keeping_volumeFilters (gain : Rat) : Keeping (volumeFilters gain) := by
  unfold volumeFilters
  split <;> simp [Keeping, Filter.length]

theorem chained_cutFilters (clip : Clip Rat ι) (lengths : List Rat) :
    chained (cutFilters clip) lengths = [clip.visibleDuration] := by
  unfold cutFilters
  split <;> rfl

theorem length_picture [BEq ι] (index : Nat) (clip : Clip Rat ι) (fades : List (Transition Rat ι))
    (lengths : List Rat) :
    (s.pictureNode index clip fades).length lengths = clip.visibleDuration := by
  have hfit : Keeping (fitFrame s.width s.height) := by simp [Keeping, fitFrame, Filter.length]
  have hfades := Keeping.flatMap fun (x : Transition Rat ι) (_ : x ∈ fades) =>
    keeping_fadeFilters x clip.visibleDuration
  simp only [pictureNode, Node.length, pictureFilters, chained_append, chained_cutFilters,
    (keeping_cropFilters clip).chained_eq, hfit.chained_eq]
  split
  · rw [(keeping_look _).chained_eq, hfades.chained_eq, (keeping_normalVideo _).chained_eq]
    rfl
  · rw [keeping_nil.chained_eq, hfades.chained_eq, (keeping_normalVideo _).chained_eq]
    rfl

theorem length_sound (index : Nat) (clip : Clip Rat ι) (fades : List (Transition Rat ι))
    (lengths : List Rat) :
    Node.length ⟨"clip", .audio, [.source index .audio],
      s.soundFilters clip fades ++ normalAudio⟩ lengths = clip.visibleDuration := by
  have hcut (ls : List Rat) : chained [.soundSpan clip.trimIn clip.visibleDuration,
      .soundResetTime, .soundPad, .soundLength clip.visibleDuration] ls =
        [clip.visibleDuration] := rfl
  have hfades := Keeping.flatMap fun (x : Transition Rat ι) (_ : x ∈ fades) =>
    keeping_soundFadeFilters x clip.visibleDuration
  simp only [Node.length, soundFilters, chained_append, hcut]
  split
  · rw [(keeping_volumeFilters _).chained_eq, hfades.chained_eq, keeping_normalAudio.chained_eq]
    rfl
  · rw [keeping_nil.chained_eq, hfades.chained_eq, keeping_normalAudio.chained_eq]
    rfl

theorem addClip_adds [BEq ι] (index : Nat) (clip : Clip Rat ι) (fades : List (Transition Rat ι)) :
    g.Adds (s.addClip g index clip fades) clip.visibleDuration := by
  have hv := length_picture (s := s) index clip fades g.lengths
  cases hs : s.isSilent clip with
  | true =>
    simp only [addClip, hs, if_true]
    exact Draft.adds_pair "clip" (by decide) rfl rfl hv rfl
  | false =>
    simp only [addClip, hs, Bool.false_eq_true, if_false]
    exact Draft.adds_pair "clip" (by decide) rfl rfl hv (length_sound index clip fades _)

variable (s g) in
/-- The clips of a run leave strands of their lengths. -/
theorem addClips_lasts [BEq ι] (lane : List (Clip Rat ι)) (grouping : Grouping Rat ι)
    (indices : List Nat) :
    g.Grows (s.addClips lane grouping g indices).1 ∧
      ∀ p ∈ (s.addClips lane grouping g indices).2,
        (s.addClips lane grouping g indices).1.Lasts p.2 (lengthAt lane p.1) := by
  induction indices generalizing g with
  | nil => exact ⟨.refl g, by simp [addClips]⟩
  | cons index rest ih =>
    rw [addClips]
    split
    · exact ih g
    · next clip hclip =>
      have hadds := addClip_adds (s := s) (g := g) index clip (grouping.fadesOf index)
      obtain ⟨hgrows, hlasts⟩ := ih (s.addClip g index clip (grouping.fadesOf index)).1
      refine ⟨hadds.grows.trans hgrows, fun p hp => ?_⟩
      rcases List.mem_cons.1 hp with rfl | hp
      · rw [lengthAt_eq hclip]
        exact hadds.lasts.of_kept hgrows.kept
      · exact hlasts p hp

/-! ## Joins -/

/-- A join that overlaps no more than there is makes one strand of two, which lasts from its
offset on as long as the second. -/
theorem addJoin_adds {sofar next : Strand} {join : Join Rat ι} {total right : Rat}
    (hsofar : g.Lasts sofar total) (hnext : g.Lasts next right)
    (hcut : join.transition = none → join.overlap = 0) (hleft : join.overlap ≤ total)
    (hright : join.overlap ≤ right) (hoffset : join.offset = total - join.overlap) :
    g.Adds (s.addJoin g sofar next join) (join.offset + right) := by
  have hvideo := Graph.ref_length hsofar.1
  have hvideo' := Graph.ref_length hnext.1
  have haudio (n : Node (Filter Rat)) := Graph.ref_length (hsofar.of_kept (g.prefix_push n)).2
  have haudio' (n : Node (Filter Rat)) := Graph.ref_length (hnext.of_kept (g.prefix_push n)).2
  unfold addJoin
  split
  · next x hx =>
    let v : Node (Filter Rat) := ⟨"xfade", .video, [.node sofar.video, .node next.video],
      .crossFade x.kind join.overlap join.offset :: normalVideo s.fps⟩
    let a : Node (Filter Rat) := ⟨"acrossfade", .audio, [.node sofar.audio, .node next.audio],
      .soundCrossFade join.overlap :: normalAudio⟩
    have hkept : g.nodes <+: ((g.push v).push a).nodes :=
      (Graph.prefix_push ..).trans (Graph.prefix_push ..)
    have hfade : ((g.push v).push a).CrossFades g.size :=
      ⟨x.kind, join.overlap, join.offset, total, right, sofar, next, normalVideo s.fps, normalAudio,
        getElem?_of_kept (Graph.prefix_push ..) (by simp [Graph.push, Graph.size, v]),
        by simp [Graph.push, Graph.size, a], hsofar.of_kept hkept, hnext.of_kept hkept,
        hleft, hright⟩
    have hgrows : g.Grows ((g.push v).push a) :=
      ⟨hkept, fun h => h.push_fade rfl rfl hfade,
        (Graph.placesOf_push_of_ne (by simp [a])).trans (Graph.placesOf_push_of_ne (by simp [v]))⟩
    refine ⟨hgrows, Graph.lasts_pair ?_ ?_⟩
    · refine (Node.length_cons (keeping_normalVideo _) _).trans ?_
      simp [Filter.length, hvideo']
    · refine (Node.length_cons keeping_normalAudio _).trans ?_
      simp only [Filter.length, List.map_cons, haudio, haudio', List.getD_cons_zero,
        List.getD_cons_succ, hoffset]
      ring
  · next hx =>
    have htotal : total + right = join.offset + right := by rw [hoffset, hcut hx, sub_zero]
    refine Draft.adds_pair "concat" (by decide) rfl rfl ?_ ?_
    · refine (Node.length_cons (keeping_normalVideo _) _).trans ?_
      simp [Filter.length, hvideo, hvideo', htotal]
    · refine (Node.length_cons keeping_normalAudio _).trans ?_
      simp [Filter.length, haudio, haudio', htotal]

/-- The joins of a run leave the strand that they build. -/
theorem addJoins_adds {len : Nat → Rat} {strands : List (Nat × Strand)} {total final : Rat}
    {joins : List (Join Rat ι)} {sofar : Strand} (hbuilds : Builds len total joins final)
    (hstrands : ∀ p ∈ strands, g.Lasts p.2 (len p.1))
    (hmem : ∀ j ∈ joins, j.right ∈ strands.map (·.1)) (hsofar : g.Lasts sofar total) :
    g.Adds (s.addJoins strands g sofar joins) final := by
  induction hbuilds generalizing g sofar with
  | nil => exact ⟨.refl g, hsofar⟩
  | @cons total final join joins hcut hleft hright hoffset _ ih =>
    obtain ⟨p, hp, hkey⟩ := List.mem_map.1 (hmem join (by simp))
    rw [addJoins]
    split
    · next hnone => exact absurd (beq_iff_eq.2 hkey) (List.find?_eq_none.1 hnone p hp)
    · next i next hfind =>
      have hi : i = join.right := by simpa using List.find?_some hfind
      have hnext : g.Lasts next (len join.right) := hi ▸ hstrands _ (List.mem_of_find?_eq_some hfind)
      have hadds := addJoin_adds (s := s) hsofar hnext hcut hleft hright hoffset
      have hrest := ih (fun q hq => (hstrands q hq).of_kept hadds.grows.kept)
        (fun j hj => hmem j (List.mem_cons_of_mem _ hj)) hadds.lasts
      exact ⟨hadds.grows.trans hrest.grows, hrest.lasts⟩

/-! ## Parts -/

section Parts

variable [BEq ι] {lane : List (Clip Rat ι)} {grouping : Grouping Rat ι}

theorem addRun_adds {r : Run Rat ι} (hlinked : r.Linked)
    (hlane : ∀ i ∈ r.clips, i < lane.length) (hbuilt : r.Built (lengthAt lane)) :
    g.Adds (s.addRun lane grouping g r) r.duration := by
  obtain ⟨first, rest, hclips, hbuilds⟩ := hbuilt
  have hindices := addClips_indices s g grouping r.clips hlane
  obtain ⟨hgrows, hstrands⟩ := addClips_lasts s g lane grouping r.clips
  unfold addRun
  split
  next g' strands hg =>
  rw [hg] at hindices hgrows hstrands
  cases strands with
  | nil => simp [hclips] at hindices
  | cons p waiting =>
    have hfirst : p.1 = first := by
      rw [hclips] at hindices
      exact (List.cons.inj hindices).1
    have hmem : ∀ j ∈ r.joins, j.right ∈ (p :: waiting).map (·.1) := fun j hj => by
      rw [hindices]
      refine List.mem_of_mem_tail (hlinked.rights ▸ ?_)
      exact List.mem_map_of_mem hj
    have hadds := addJoins_adds (s := s) hbuilds hstrands hmem (hfirst ▸ hstrands p (by simp))
    exact ⟨hgrows.trans hadds.grows, hadds.lasts⟩

variable (s g grouping) in
/-- The parts of the picture leave strands of their lengths. -/
theorem addPieces_lasts {ps : List (Piece Rat ι)} (hps : Laid lane ps)
    (hbuilt : ∀ r, .run r ∈ ps → r.Built (lengthAt lane)) :
    g.Grows (s.addPieces lane grouping g ps).1 ∧
      (∀ x ∈ (s.addPieces lane grouping g ps).2,
        (s.addPieces lane grouping g ps).1.Lasts x.strand x.duration) ∧
      (s.addPieces lane grouping g ps).2.map (·.duration) = ps.map Piece.duration := by
  induction ps generalizing g with
  | nil => exact ⟨.refl g, by simp [addPieces], rfl⟩
  | cons piece rest ih =>
    have ih := fun g' => ih g' (fun q hq => hps q (List.mem_cons_of_mem _ hq))
      fun q hq => hbuilt q (List.mem_cons_of_mem _ hq)
    cases piece with
    | gap d =>
      have hadds := addGap_adds (s := s) (g := g) d
      obtain ⟨hgrows, hlasts, hdurations⟩ := ih (s.addGap g d).1
      exact ⟨hadds.grows.trans hgrows, List.forall_mem_cons.2
        ⟨hadds.lasts.of_kept hgrows.kept, hlasts⟩, congrArg (d :: ·) hdurations⟩
    | run r =>
      obtain ⟨hlinked, -, hlane⟩ := hps r (by simp)
      have hadds : g.Adds (s.addRun lane grouping g r) r.duration :=
        addRun_adds hlinked hlane (hbuilt r (by simp))
      obtain ⟨hgrows, hlasts, hdurations⟩ := ih (s.addRun lane grouping g r).1
      exact ⟨hadds.grows.trans hgrows, List.forall_mem_cons.2
        ⟨hadds.lasts.of_kept hgrows.kept, hlasts⟩, congrArg (r.duration :: ·) hdurations⟩

end Parts

/-! ## From the parts to the outputs -/

theorem length_joined {segments : List (Segment Rat ι)} {stream : Stream} {lengths : List Rat}
    {node : Strand → Int}
    (h : ∀ x ∈ segments, Ref.length lengths (.node (node x.strand)) = x.duration) :
    Node.length ⟨"assemble", stream, segments.map fun x => .node (node x.strand),
      if segments.length = 1 then [.pass stream] else [.concat segments.length stream]⟩ lengths =
      (segments.map (·.duration)).sum := by
  simp only [Node.length, List.map_map]
  rw [List.map_congr_left (g := (·.duration)) h]
  split
  · next hone =>
    obtain ⟨x, rfl⟩ := List.length_eq_one_iff.1 hone
    simp [chained, Filter.length]
  · rfl

/-- The whole lasts as long as its parts together. -/
theorem assemble_lasts {segments : List (Segment Rat ι)}
    (h : ∀ x ∈ segments, g.Lasts x.strand x.duration) :
    (assemble g segments).1.Lasts (assemble g segments).2 (segments.map (·.duration)).sum := by
  refine Graph.lasts_pair (length_joined fun x hx => ?_) (length_joined fun x hx => ?_)
  · exact Graph.ref_length (h x hx).1
  · exact Graph.ref_length ((h x hx).of_kept (Graph.prefix_push ..)).2

theorem assemble_kept (segments : List (Segment Rat ι)) :
    g.nodes <+: (assemble g segments).1.nodes :=
  (Graph.prefix_push ..).trans (Graph.prefix_push ..)

theorem assemble_fits (segments : List (Segment Rat ι)) (h : g.FadesFit) :
    (assemble g segments).1.FadesFit :=
  (h.push (by simp) (by simp)).push (by simp) (by simp)

theorem assemble_places (segments : List (Segment Rat ι)) :
    (assemble g segments).1.placesOf "assemble" =
      g.placesOf "assemble" ++ (assemble g segments).2.ends := by
  refine (Graph.placesOf_push rfl).trans ?_
  rw [Graph.placesOf_push rfl, List.append_assoc]
  rfl

theorem addOverlays_grows {font : String} {total : Rat} {overlays : List (Overlay Rat)}
    {video : Int} {r : Draft Rat × Int} (hr : s.addOverlays font total g video overlays = .ok r) :
    g.Grows r.1 := by
  induction overlays generalizing g video with
  | nil =>
    cases hr
    exact .refl _
  | cons o rest ih =>
    rw [addOverlays] at hr
    split at hr
    · split at hr
      · cases hr
      · exact (Graph.grows_push (by simp)).trans (ih hr)
    · exact ih hr

theorem addHeard_grows {total : Rat} {clips : List (Clip Rat ι)} {m r : Mix Rat ι}
    (hr : s.addHeard total m clips = .ok r) : m.graph.Grows r.graph := by
  induction clips generalizing m with
  | nil =>
    cases hr
    exact .refl _
  | cons clip rest ih =>
    rw [addHeard] at hr
    split at hr
    · exact ih hr
    · split at hr
      · cases hr
      · split at hr
        · cases hr
        · exact (Graph.grows_push (by simp)).trans (ih hr)

theorem mix_grows (m : Mix Rat ι) (audio : Int) : m.graph.Grows (mix m audio).1 := by
  unfold mix
  split
  · exact .refl _
  · exact Graph.grows_push (by simp)

/-- The two output nodes are further nodes. -/
theorem outputs_grow (video audio : Int) :
    g.Grows ((g.add "output" .video [.node video] [.pass .video]).1.add "output" .audio
      [.node audio] [.pass .audio]).1 :=
  Graph.Grows.trans (Graph.grows_push (by simp)) (Graph.grows_push (by simp))

end Scene

/-! ## Compiling -/

/-- A compiled timeline whose picture and sound are equally long: in each part of it, in
what every cross-fade fades, and as a whole. -/
structure Compiled.InStep (c : Compiled Rat ι) : Prop where
  segments : ∀ x ∈ c.segments, c.graph.Lasts x.strand x.duration
  fades : c.graph.FadesFit
  whole : ∃ s : Strand, c.graph.placesOf "assemble" = s.ends ∧ c.graph.Lasts s c.duration

variable [BEq ι] [Label ι Rat] {t : Timeline Rat ι} {library : Library Rat}
  {settings : ExportSettings} {font : String} {c : Compiled Rat ι}

/-- **Picture and sound are equally long** where the clips of a timeline are seen for a while. -/
theorem compile_inStep (hclips : ∀ clip ∈ t.allClips, 0 < clip.visibleDuration)
    (h : compile t library settings font = .ok c) : c.InStep := by
  obtain ⟨lane, hlane, drawn, hdrawn, m, hm, hgraph, -, -, hsegments, hduration⟩ := compile_eq_ok h
  let parts := (Scene.ofSettings t library settings).addPieces lane (t.grouping lane) Graph.empty
    (t.grouping lane).pieces
  have hbuilt : ∀ r, .run r ∈ (t.grouping lane).pieces → r.Built (lengthAt lane) := fun r hr =>
    built_of_mem_pieces (fun clip hclip => hclips clip (mem_allClips_of_lane hlane hclip)) hr
  obtain ⟨hgrows, hlasts, hlengths⟩ : Graph.empty.Grows parts.1 ∧
      (∀ x ∈ parts.2, parts.1.Lasts x.strand x.duration) ∧
      parts.2.map (·.duration) = (t.grouping lane).pieces.map Piece.duration :=
    Scene.addPieces_lasts _ _ _ (laid_grouping t lane) hbuilt
  -- What comes after the assembly is further nodes.
  have hafter : (Scene.assemble parts.1 parts.2).1.Grows c.graph := by
    rw [hgraph]
    refine (Scene.addOverlays_grows hdrawn).trans ((Scene.addHeard_grows hm).trans ?_)
    exact (Scene.mix_grows m _).trans (Scene.outputs_grow ..)
  have hkept : parts.1.nodes <+: c.graph.nodes := (Scene.assemble_kept _).trans hafter.kept
  have hwhole : (Scene.assemble parts.1 parts.2).1.Lasts (Scene.assemble parts.1 parts.2).2
      c.duration := by
    rw [hduration, Grouping.duration, Scalar.sum_eq, ← hlengths]
    exact Scene.assemble_lasts hlasts
  refine ⟨fun x hx => ?_, ?_, (Scene.assemble parts.1 parts.2).2, ?_, hwhole.of_kept hafter.kept⟩
  · rw [hsegments] at hx
    exact (hlasts x hx).of_kept hkept
  · exact hafter.fits (Scene.assemble_fits _ (hgrows.fits Graph.fadesFit_empty))
  · rw [hafter.assembled, Scene.assemble_places, hgrows.assembled]
    rfl

theorem reel_inStep : (∀ clip ∈ reel.allClips, 0 < clip.visibleDuration) ∧
    ∃ c, compile reel reelMedia .default "font" = .ok c ∧ c.segments.length = 3 ∧
      c.duration = 81 / 10 ∧ c.InStep := by
  have hclips : ∀ clip ∈ reel.allClips, 0 < clip.visibleDuration := by
    simp [Timeline.allClips, reel, row, shots, shot, Clip.visibleDuration]
  have hframe : ExportSettings.default.frame reel.aspectRatio = (1920, 1080) := by decide +kernel
  have hparts : (compile reel reelMedia .default "font").map
      (fun c => (c.segments.length, c.duration)) = .ok (3, 81 / 10) := by
    unfold compile
    rw [hframe]
    cbv
  obtain ⟨c, hc, hpair⟩ := map_eq_ok.1 hparts
  rw [Prod.mk.injEq] at hpair
  exact ⟨hclips, c, hc, hpair.1, hpair.2, compile_inStep hclips hc⟩

end Montage
