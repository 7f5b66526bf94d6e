/-
What is put together in an export is in the common format.

The engine puts pictures or sounds together only if they agree in frame rate, shape and coding, or
in rate and channels. Whatever kinds of clips and gaps a timeline has, every node that is joined
with another or assembled ends in the filters that bring its stream to the common format, as they
are written for the engine (`compile_levelled`).
-/
import Montage.Proofs.Export.Nodes

namespace Montage

variable {α ι : Type}

/-- The filters that bring a stream to the common format, as they are written: frame rate, time base,
shape of the pixels and their coding for a picture, rate and channels for a sound. -/
def Stream.levellingTexts (fps : Int) : Stream → List String
  | .video => ["fps=" ++ toString fps, "settb=1/" ++ toString fps, "setsar=1", "format=yuv420p"]
  | .audio => ["aformat=sample_rates=48000:channel_layouts=stereo"]

theorem map_text_levelling [Scalar α] (fps : Int) (stream : Stream) :
    (stream.levelling fps : List (Filter α)).map Filter.text = stream.levellingTexts fps := by
  cases stream with
  | video => exact map_text_normalVideo fps
  | audio => rfl

/-- Whether a node puts pictures or sounds together: of two clips of a run, or of all parts. -/
def Node.putsTogether {φ : Type} (n : Node φ) : Bool :=
  n.op ∈ ["xfade", "acrossfade", "concat", "assemble"]

/-- What a node reads is a node of its own stream, and the filters written for it end in those of the
common format of a frame rate. -/
def Graph.ReadsLevelled [Scalar α] (g : Graph (Filter α)) (fps : Int) (n : Node (Filter α)) (r : Ref) : Prop :=
  ∃ (i : Nat) (m : Node (Filter α)), r = .node i ∧ g.nodes[i]? = some m ∧ m.stream = n.stream ∧
    m.stream.levellingTexts fps <:+ m.filters.map Filter.text

/-- A node reads only the first nodes of a graph if those that come between are of other
streams. -/
theorem Graph.Wired.reads_first {φ : Type} {g : Graph φ} {ends : List LooseEnd} (h : g.Wired ends)
    {first rest : List (Node φ)} (hnodes : g.nodes = first ++ rest) {k : Nat} {n : Node φ}
    (hn : g.nodes[k]? = some n)
    (hrest : ∀ m ∈ rest.take (k - first.length), m.stream ≠ n.stream) {r : Ref}
    (hr : r ∈ n.inputs) (hnode : r.isSource = false) :
    ∃ (i : Nat) (m : Node φ), r = .node i ∧ g.nodes[i]? = some m ∧ m.stream = n.stream ∧ m ∈ first := by
  cases r with
  | source i st => cases hnode
  | node i =>
    obtain ⟨h0, hlt⟩ := h.earlier hn hr
    obtain ⟨-, m, hm, hstream⟩ := Graph.stream?_node.1 (h.stream?_eq (List.mem_of_getElem? hn) hr)
    refine ⟨i.toNat, m, by rw [Int.toNat_of_nonneg h0], hm, hstream, ?_⟩
    rw [hnodes] at hm
    rcases Nat.lt_or_ge i.toNat first.length with hi | hi
    · rw [List.getElem?_append_left hi] at hm
      exact List.mem_of_getElem? hm
    · rw [List.getElem?_append_right hi] at hm
      refine absurd hstream (hrest m (List.mem_of_getElem? (i := i.toNat - first.length) ?_))
      rw [List.getElem?_take_of_lt (by omega), hm]

/-- What is put together behind the parts are the parts themselves, their sounds after their
pictures. -/
theorem Finish.putsTogether_nodes {f : Finish α} (htracks : ∀ n ∈ f.tracks, n.op = "audio_track")
    {j : Nat} {n : Node (Filter α)} (hn : f.nodes[j]? = some n) (hop : n.putsTogether) :
    n ∈ assemblyNodes f.strands ∧ ∀ m ∈ f.nodes.take j, m.stream ≠ n.stream := by
  match j with
  | 0 =>
    obtain rfl : _ = n := Option.some.inj hn
    exact ⟨List.mem_cons_self .., by simp⟩
  | 1 =>
    obtain rfl : _ = n := Option.some.inj hn
    exact ⟨List.mem_cons_of_mem _ (List.mem_cons_self ..), by simp [nodes, assemblyNodes]⟩
  | j + 2 =>
    have hlater := f.op_of_mem_later htracks (List.mem_of_getElem? (i := j) hn)
    simp only [Node.putsTogether, decide_eq_true_eq, List.mem_cons, List.not_mem_nil, or_false]
      at hop hlater
    rcases hop with hop | hop | hop | hop <;> simp [hop] at hlater

theorem Finish.filter_assemble {f : Finish α} (htracks : ∀ n ∈ f.tracks, n.op = "audio_track") :
    f.nodes.filter (·.op == "assemble") = assemblyNodes f.strands := by
  rw [nodes, List.filter_append, List.filter_eq_nil_iff.2 fun n hn =>
    Node.op_bne (f.op_of_mem_later htracks hn) (by decide)]
  rfl

theorem isSource_of_mem_assemblyNodes {strands : List Strand} {n : Node (Filter α)}
    (hn : n ∈ assemblyNodes strands) : ∀ r ∈ n.inputs, r.isSource = false := by
  rcases List.mem_pair.1 hn with rfl | rfl <;> exact List.forall_mem_map.2 fun _ _ => rfl

variable [Scalar α] [BEq ι] [Label ι α] {t : Timeline α ι} {library : Library α}
  {settings : ExportSettings} {font : String} {c : Compiled α ι}

/-- **What an export puts together is in the common format**, of the strands of its parts in the
end. -/
theorem compile_levelled (h : compile t library settings font = .ok c) :
    (∀ n ∈ c.graph.nodes, n.putsTogether →
      ∀ r ∈ n.inputs, c.graph.ReadsLevelled c.rate.value n r) ∧
    (c.graph.nodesOf "assemble").map (fun n => (n.stream, n.inputs)) =
      [(.video, c.segments.map fun x => .node x.strand.video),
        (.audio, c.segments.map fun x => .node x.strand.audio)] := by
  have hwired := compile_wired h
  obtain ⟨lane, parts, texts, -, hparts, -, hnodes, -⟩ := compile_nodes h
  rw [compile_rate h]
  have htracks : ∀ n ∈ ((Scene.audible c.duration t.heardClips).zipIdx lane.length).map
      (Scene.ofSettings t library settings).trackNode, n.op = "audio_track" :=
    List.forall_mem_map.2 fun _ _ => rfl
  refine ⟨fun n hn hop r hr => ?_, ?_⟩
  · obtain ⟨k, hk⟩ := List.mem_iff_getElem?.1 hn
    -- A node reads parts only, for nothing else comes before it in its stream.
    have hreads {rest : List (Node (Filter α))} (hrest : c.graph.nodes = parts ++ rest)
        (hbetween : ∀ m ∈ rest.take (k - parts.length), m.stream ≠ n.stream)
        (hnode : r.isSource = false) : c.graph.ReadsLevelled settings.rate.value n r := by
      obtain ⟨i, m, hi, hm, hstream, hpart⟩ := hwired.reads_first hrest hk hbetween hr hnode
      have hlevel := (hparts m hpart).level.map Filter.text
      rw [map_text_levelling] at hlevel
      exact ⟨i, m, hi, hm, hstream, hlevel⟩
    rcases Nat.lt_or_ge k parts.length with hpart | hlater
    · have hn : n ∈ parts := by
        rw [hnodes, List.getElem?_append_left hpart] at hk
        exact List.mem_of_getElem? hk
      refine hreads hnodes (by simp [Nat.sub_eq_zero_of_le hpart.le]) ((hparts n hn).reads ?_ r hr)
      rintro hclip
      simp [Node.putsTogether, hclip] at hop
    · have hj := hk
      rw [hnodes, List.getElem?_append_right hlater] at hj
      obtain ⟨hassembly, hbetween⟩ := Finish.putsTogether_nodes htracks hj hop
      exact hreads hnodes hbetween (isSource_of_mem_assemblyNodes hassembly r hr)
  · rw [Graph.nodesOf, hnodes, List.filter_append, Finish.filter_assemble htracks,
      List.filter_eq_nil_iff.2 fun n hn => Node.op_bne (hparts n hn).op (by decide)]
    simp [assemblyNodes, Function.comp_def]

theorem reel_levelled : ∃ c, compile reel reelMedia .default "font" = .ok c ∧
    (c.graph.nodes.filter Node.putsTogether).map (·.op) =
      ["xfade", "acrossfade", "assemble", "assemble"] ∧
    (∀ n ∈ c.graph.nodes, n.putsTogether →
      ∀ r ∈ n.inputs, c.graph.ReadsLevelled c.rate.value n r) ∧
    (c.graph.nodesOf "assemble").map (fun n => (n.stream, n.inputs)) =
      [(.video, c.segments.map fun x => .node x.strand.video),
        (.audio, c.segments.map fun x => .node x.strand.audio)] := by
  have hframe : ExportSettings.default.frame reel.aspectRatio = (1920, 1080) := by decide +kernel
  have hops : (compile reel reelMedia .default "font").map
      (fun c => (c.graph.nodes.filter Node.putsTogether).map (·.op)) =
        .ok ["xfade", "acrossfade", "assemble", "assemble"] := by
    unfold compile
    rw [hframe]
    cbv
  obtain ⟨c, hc, hops⟩ := map_eq_ok.1 hops
  exact ⟨c, hc, hops, compile_levelled hc⟩

end Montage
