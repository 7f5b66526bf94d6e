/-
How a clip of the lane fades alone.

A transition that no join takes fades the picture of its clip, and the clip's own sound if it is
not silent, over one span of the clip at its side (`compile_fades`). The span lies within the clip.
It takes no more than its share of it, and ends before one at the other side begins, just where the
clip is as long as two of the least transitions: what is shorter fades for a whole least transition.
-/
import Montage.Proofs.Export.Leaves
import Montage.Proofs.Layout.Table
import Montage.Proofs.Rational

namespace Montage

variable {α ι : Type}

/-- A span of a clip over which it fades, at one of its sides. -/
structure FadeSpan (α : Type) where
  side : Side
  start : α
  length : α
deriving DecidableEq, Repr

/-- Where a span ends. -/
def FadeSpan.finish [Scalar α] (f : FadeSpan α) : α := f.start + f.length

/-- The span over which a filter fades a clip. -/
def Filter.fadeSpan? [Scalar α] : Filter α → Option (FadeSpan α)
  | .fadeIn d => some ⟨.start, 0.0, d⟩
  | .spinIn d => some ⟨.start, 0.0, d⟩
  | .soundFadeIn d => some ⟨.start, 0.0, d⟩
  | .fadeOut start d => some ⟨.finish, start, d⟩
  | .spinOut start d => some ⟨.finish, start, d⟩
  | .soundFadeOut start d => some ⟨.finish, start, d⟩
  | _ => none

/-- The spans over which filters fade a clip, in order. -/
def fadeSpans [Scalar α] (fs : List (Filter α)) : List (FadeSpan α) :=
  fs.filterMap Filter.fadeSpan?

/-- The span of a clip of some length at the side of a transition. -/
def Transition.fadeSpan [Scalar α] (x : Transition α ι) (clipDuration : α) : FadeSpan α :=
  match x.side with
  | .start => ⟨.start, 0.0, x.fadeDuration clipDuration⟩
  | .finish => ⟨.finish, x.fadeStart clipDuration, x.fadeDuration clipDuration⟩

/-! ## The filters of a clip -/

section Spans

variable [Scalar α] {f : FadeSpan α} {x : Transition α ι}

theorem fadeSpans_append (fs gs : List (Filter α)) :
    fadeSpans (fs ++ gs) = fadeSpans fs ++ fadeSpans gs := List.filterMap_append

theorem fadeSpans_flatMap {β : Type} (xs : List β) (fs : β → List (Filter α)) :
    fadeSpans (xs.flatMap fs) = xs.flatMap fun x => fadeSpans (fs x) := List.filterMap_flatMap ..

/-- The frame turns, if it does, over the span over which it fades. -/
theorem mem_fadeSpans_fadeFilters (hx : x.kind ≠ .none) (d : α) :
    f ∈ fadeSpans (x.fadeFilters d) ↔ f = x.fadeSpan d := by
  unfold Transition.fadeFilters Transition.fadeSpan
  rw [if_neg hx]
  cases x.side <;> dsimp only <;> split <;> simp [fadeSpans, Filter.fadeSpan?, eq_comm]

theorem mem_fadeSpans_soundFadeFilters (hx : x.kind ≠ .none) (d : α) :
    f ∈ fadeSpans (x.soundFadeFilters d) ↔ f = x.fadeSpan d := by
  unfold Transition.soundFadeFilters Transition.fadeSpan
  rw [if_neg hx]
  cases x.side <;> simp [fadeSpans, Filter.fadeSpan?]

theorem fadeSpans_look (l : Look α ι) : fadeSpans l.filters = [] := by
  unfold Look.filters
  simp only [fadeSpans_append, List.append_eq_nil_iff, and_assoc]
  refine ⟨?_, ?_, ?_, ?_⟩ <;> split <;> rfl

theorem fadeSpans_volume (gain : α) : fadeSpans (Scene.volumeFilters gain) = [] := by
  unfold Scene.volumeFilters
  split <;> rfl

theorem fadeSpans_cut (clip : Clip α ι) : fadeSpans (Scene.cutFilters clip) = [] := by
  unfold Scene.cutFilters
  split <;> rfl

theorem fadeSpans_crop (clip : Clip α ι) : fadeSpans (Scene.cropFilters clip) = [] := by
  unfold Scene.cropFilters
  split
  · split <;> rfl
  · rfl

end Spans

namespace Scene

variable [Scalar α] {s : Scene α ι} {k : Nat} {clip : Clip α ι} {fades : List (Transition α ι)}

theorem fadeSpans_pictureNode [BEq ι] : fadeSpans (s.pictureNode k clip fades).filters =
    fades.flatMap fun x => fadeSpans (x.fadeFilters clip.visibleDuration) := by
  have hfit : fadeSpans (fitFrame s.width s.height : List (Filter α)) = [] := rfl
  have hnormal : fadeSpans (normalVideo s.fps : List (Filter α)) = [] := rfl
  simp only [pictureNode, pictureFilters, fadeSpans_append, fadeSpans_cut, fadeSpans_crop, hfit,
    hnormal, fadeSpans_flatMap, List.nil_append, List.append_nil]
  split
  · rw [fadeSpans_look, List.nil_append]
  · rfl

theorem fadeSpans_soundNode (hloud : s.isSilent clip = false) :
    fadeSpans (s.soundNode k clip fades).filters =
      fades.flatMap fun x => fadeSpans (x.soundFadeFilters clip.visibleDuration) := by
  have hcut : fadeSpans [.soundSpan clip.trimIn clip.visibleDuration, .soundResetTime, .soundPad,
      .soundLength clip.visibleDuration] = [] := rfl
  have hnormal : fadeSpans (normalAudio : List (Filter α)) = [] := rfl
  simp only [soundNode, hloud, Bool.false_eq_true, if_false, soundFilters, fadeSpans_append, hcut,
    hnormal, fadeSpans_flatMap, List.nil_append, List.append_nil]
  split
  · rw [fadeSpans_volume, List.nil_append]
  · rfl

/-- The nodes that read the input of a clip fade it over the spans of its transitions. -/
theorem mem_fadeSpans [BEq ι] (hfades : ∀ x ∈ fades, x.kind ≠ .none) {n : Node (Filter α)}
    (hn : n = s.pictureNode k clip fades ∨ n = s.soundNode k clip fades) {i : Int} {st : Stream}
    (hread : .source i st ∈ n.inputs) (f : FadeSpan α) :
    f ∈ fadeSpans n.filters ↔ ∃ x ∈ fades, f = x.fadeSpan clip.visibleDuration := by
  rcases hn with rfl | rfl
  · rw [fadeSpans_pictureNode, List.mem_flatMap]
    exact exists_congr fun x => and_congr_right fun hx => mem_fadeSpans_fadeFilters (hfades x hx) _
  · have hloud : s.isSilent clip = false := by
      cases hs : s.isSilent clip with
      | false => rfl
      | true => simp [soundNode, hs] at hread
    rw [fadeSpans_soundNode hloud, List.mem_flatMap]
    exact exists_congr fun x =>
      and_congr_right fun hx => mem_fadeSpans_soundFadeFilters (hfades x hx) _

end Scene

/-! ## Spans and their share of a clip -/

section Exact

variable {d : Rat} (x y : Transition Rat ι)

theorem maxFadeShare_eq : (maxFadeShare : Rat) = 1 / 2 := by
  norm_num [maxFadeShare]

theorem Transition.fadeDuration_eq (d : Rat) :
    x.fadeDuration d = max (1 / 10) (min x.duration (d / 2)) := by
  rw [fadeDuration, Scalar.larger_eq_max, Scalar.smaller_eq_min, minTransitionDuration_eq,
    maxFadeShare_eq, mul_one_div]

theorem Transition.length_fadeSpan (d : Rat) : (x.fadeSpan d).length = x.fadeDuration d := by
  unfold fadeSpan
  split <;> rfl

/-- A clip that may stand on a track is no shorter than its fade. -/
theorem Transition.fadeDuration_le (hd : minClipDuration ≤ d) : x.fadeDuration d ≤ d := by
  rw [minClipDuration_eq] at hd
  rw [fadeDuration_eq]
  exact max_le hd ((min_le_right _ _).trans (by linarith))

theorem Transition.fadeStart_eq (hd : minClipDuration ≤ d) :
    x.fadeStart d = d - x.fadeDuration d := by
  rw [fadeStart, Scalar.larger_eq_max, Scalar.zero_eq]
  exact max_eq_right (sub_nonneg.2 (x.fadeDuration_le hd))

theorem Transition.fadeSpan_within (hd : minClipDuration ≤ d) :
    0 ≤ (x.fadeSpan d).start ∧ 0 < (x.fadeSpan d).length ∧ (x.fadeSpan d).finish ≤ d := by
  have hle := x.fadeDuration_le hd
  have hpos : 0 < x.fadeDuration d := by
    rw [fadeDuration_eq]
    exact lt_of_lt_of_le (by norm_num) (le_max_left _ _)
  unfold fadeSpan FadeSpan.finish
  split
  · exact ⟨Scalar.zero_eq.ge, hpos, by simpa using hle⟩
  · rw [x.fadeStart_eq hd]
    exact ⟨sub_nonneg.2 hle, hpos, (sub_add_cancel ..).le⟩

/-- A fade keeps to its share just where the share is as long as the least transition. -/
theorem Transition.fadeDuration_le_share_iff :
    x.fadeDuration d ≤ maxFadeShare * d ↔ 2 * minTransitionDuration ≤ d := by
  rw [fadeDuration_eq, maxFadeShare_eq, minTransitionDuration_eq]
  constructor
  · intro h
    have := (le_max_left _ _).trans h
    linarith
  · intro h
    exact max_le (by linarith) ((min_le_right _ _).trans (by linarith))

/-- The fades at the two sides of a clip are apart just where each keeps to its share: in a shorter
clip both last a least transition. -/
theorem Transition.fadeSpan_apart_iff (hd : minClipDuration ≤ d) (hx : x.side = .start)
    (hy : y.side = .finish) :
    (x.fadeSpan d).finish ≤ (y.fadeSpan d).start ↔ 2 * minTransitionDuration ≤ d := by
  have hspans : (x.fadeSpan d).finish = x.fadeDuration d ∧
      (y.fadeSpan d).start = d - y.fadeDuration d := by
    simp only [fadeSpan, FadeSpan.finish, hx, hy, Scalar.zero_eq, zero_add, y.fadeStart_eq hd,
      and_self]
  rw [hspans.1, hspans.2]
  constructor
  · intro h
    have hleast (z : Transition Rat ι) : minTransitionDuration ≤ z.fadeDuration d := by
      rw [z.fadeDuration_eq, minTransitionDuration_eq]
      exact le_max_left _ _
    have := hleast x
    have := hleast y
    linarith
  · intro h
    have hx := x.fadeDuration_le_share_iff.2 h
    have hy := y.fadeDuration_le_share_iff.2 h
    rw [maxFadeShare_eq] at hx hy
    linarith

end Exact

/-! ## Compiling -/

theorem kind_of_mem_fadesOf [BEq ι] [LawfulBEq ι] [Scalar α] {clips : List (Clip α ι)}
    {gaps : List (Gap α)} {transitions : List (Transition α ι)} {k : Nat} {x : Transition α ι}
    (h : x ∈ (groupClips clips gaps transitions).fadesOf k) : x.kind ≠ .none := by
  obtain ⟨e, he, rfl⟩ := List.mem_map.1 h
  obtain ⟨entry, hentry, rfl⟩ := List.mem_map.1 (List.mem_of_mem_filter he)
  have hplace := (place?_of_mem_transitionTable (List.mem_of_mem_filter hentry)).2
  intro hnone
  rw [Transition.place?_eq_none.2 (.inl hnone)] at hplace
  cases hplace

/-- The nodes of the lane that read an input are those of its clip. -/
theorem Scene.of_mem_laneNodes [Scalar α] [BEq ι] {s : Scene α ι} {lane : List (Clip α ι)}
    {grouping : Grouping α ι} {i k : Nat} {clip : Clip α ι} {n : Node (Filter α)} {st : Stream}
    (hn : n ∈ s.laneNodes lane grouping i) (hread : .source k st ∈ n.inputs)
    (hclip : lane[k]? = some clip) :
    n = s.pictureNode k clip (grouping.fadesOf k) ∨ n = s.soundNode k clip (grouping.fadesOf k) := by
  unfold laneNodes at hn
  split at hn
  · cases hn
  next other hother =>
  have hik : k = i := by
    rw [List.mem_pair] at hn
    rcases hn with rfl | rfl
    · simp [pictureNode] at hread
      exact hread.1
    · unfold soundNode at hread
      split at hread
      · cases hread
      · simp at hread
        exact hread.1
  subst hik
  cases hclip.symm.trans hother
  exact List.mem_pair.1 hn

/-- A node that fades a clip of some length alone, as some transitions say. -/
structure Node.FadesAlone (n : Node (Filter Rat)) (d : Rat) (xs : List (Transition Rat ι)) :
    Prop where
  spans : ∀ f, f ∈ fadeSpans n.filters ↔ ∃ x ∈ xs, f = x.fadeSpan d
  within : ∀ f ∈ fadeSpans n.filters, 0 ≤ f.start ∧ 0 < f.length ∧ f.finish ≤ d
  share : ∀ f ∈ fadeSpans n.filters, f.length ≤ maxFadeShare * d ↔ 2 * minTransitionDuration ≤ d
  apart : ∀ f ∈ fadeSpans n.filters, ∀ f' ∈ fadeSpans n.filters, f.side = .start →
    f'.side = .finish → (f.finish ≤ f'.start ↔ 2 * minTransitionDuration ≤ d)

theorem Transition.side_fadeSpan (x : Transition Rat ι) (d : Rat) : (x.fadeSpan d).side = x.side := by
  unfold fadeSpan
  split <;> simp [*]

theorem Node.fadesAlone_of_spans {n : Node (Filter Rat)} {d : Rat} {xs : List (Transition Rat ι)}
    (hd : minClipDuration ≤ d)
    (h : ∀ f, f ∈ fadeSpans n.filters ↔ ∃ x ∈ xs, f = x.fadeSpan d) : n.FadesAlone d xs where
  spans := h
  within f hf := by
    obtain ⟨x, -, rfl⟩ := (h f).1 hf
    exact x.fadeSpan_within hd
  share f hf := by
    obtain ⟨x, -, rfl⟩ := (h f).1 hf
    rw [x.length_fadeSpan]
    exact x.fadeDuration_le_share_iff
  apart f hf f' hf' hstart hfinish := by
    obtain ⟨x, -, rfl⟩ := (h f).1 hf
    obtain ⟨y, -, rfl⟩ := (h f').1 hf'
    rw [x.side_fadeSpan] at hstart
    rw [y.side_fadeSpan] at hfinish
    exact x.fadeSpan_apart_iff y hd hstart hfinish

variable [BEq ι] [LawfulBEq ι] [Label ι Rat] {t : Timeline Rat ι} {library : Library Rat}
  {settings : ExportSettings} {font : String} {c : Compiled Rat ι}

/-- **The fades of a clip keep to their share of it, and apart, if it is long enough.** Whatever reads
the input of a clip of the lane fades it over the spans of the transitions that fade it alone. They
lie within the clip, and in one that is as long as two of the least transitions, but in no
shorter one, each keeps to its share, and one at the start ends before one at the end begins. -/
theorem compile_fades (h : compile t library settings font = .ok c) :
    ∃ lane, t.lane = .ok lane ∧ ∀ (k : Nat) (clip : Clip Rat ι), lane[k]? = some clip →
      minClipDuration ≤ clip.visibleDuration →
      (∃ n ∈ c.graph.nodes, n.op = "clip" ∧ .source k .video ∈ n.inputs) ∧
      ∀ n ∈ c.graph.nodes, n.op = "clip" → ∀ st, .source k st ∈ n.inputs →
        n.FadesAlone clip.visibleDuration ((t.grouping lane).fadesOf k) := by
  obtain ⟨lane, hlane, -, -, hleaves⟩ := compile_leaves h
  refine ⟨lane, hlane, fun k clip hclip hd => ⟨?_, fun n hn hop st hread => ?_⟩⟩
  · have hnode : (Scene.ofSettings t library settings).pictureNode k clip
        ((t.grouping lane).fadesOf k) ∈ c.graph.leaves := by
      rw [hleaves]
      refine List.mem_append_left _ (List.mem_flatMap.2 ⟨k, ?_, by simp [Scene.laneNodes, hclip]⟩)
      exact List.mem_range.2 (List.getElem?_eq_some_iff.1 hclip).1
    exact ⟨_, List.mem_of_mem_filter hnode, rfl, List.mem_singleton_self _⟩
  · have hleaf : n ∈ c.graph.leaves := List.mem_filter.2 ⟨hn, by simp [Node.isLeaf, hop]⟩
    rw [hleaves, List.mem_append] at hleaf
    refine Node.fadesAlone_of_spans hd ?_
    rcases hleaf with hnode | htrack
    · obtain ⟨i, -, hi⟩ := List.mem_flatMap.1 hnode
      exact Scene.mem_fadeSpans (fun x hx => kind_of_mem_fadesOf hx)
        (Scene.of_mem_laneNodes hi hread hclip) hread
    · obtain ⟨p, -, rfl⟩ := List.mem_map.1 htrack
      simp [Scene.trackNode] at hop

/-- A clip that is seen for an eighth of a second and a longer one after a gap; both fade in and
out. -/
def blinks : Timeline Rat where
  projectName := .text "blinks"
  aspectRatio := .wide
  tracks := [row "v" .video [shot "a" 0 (1 / 8), shot "b" 1 4]]
  overlays := []
  transitions := [⟨"w", "a", .fade, 1, .start⟩, ⟨"x", "a", .dissolve, 1, .finish⟩,
    ⟨"y", "b", .rotateIn, 1, .start⟩, ⟨"z", "b", .fade, 3, .finish⟩]
  looks := []

/-- The picture of the first clip fades in for a tenth of a second and out for another one. -/
theorem blinks_compiled : ∃ c lane v n, compile blinks reelMedia .default "font" = .ok c ∧
    blinks.lane = .ok lane ∧ lane[0]? = some v ∧ v.visibleDuration = 1 / 8 ∧
    n ∈ c.graph.nodes ∧ n.op = "clip" ∧ n.inputs = [.source 0 .video] ∧
    fadeSpans n.filters = [⟨.start, 0, 1 / 10⟩, ⟨.finish, 1 / 40, 1 / 10⟩] := by
  have hframe : ExportSettings.default.frame blinks.aspectRatio = (1920, 1080) := by decide +kernel
  have hlane : blinks.lane.map (fun lane => (lane[0]?).map (·.visibleDuration)) =
      .ok (some (1 / 8)) := by cbv
  have hnode : (compile blinks reelMedia .default "font").map (fun c =>
      (c.graph.nodes.head?).map fun n => (n.op, n.inputs, fadeSpans n.filters)) =
      .ok (some ("clip", [.source 0 .video],
        [⟨.start, 0, 1 / 10⟩, ⟨.finish, 1 / 40, 1 / 10⟩])) := by
    unfold compile
    rw [hframe]
    cbv
  obtain ⟨lane, hlane, hv⟩ := map_eq_ok.1 hlane
  obtain ⟨v, hv, hlength⟩ := Option.map_eq_some_iff.1 hv
  obtain ⟨c, hc, hn⟩ := map_eq_ok.1 hnode
  obtain ⟨n, hn, hparts⟩ := Option.map_eq_some_iff.1 hn
  simp only [Prod.mk.injEq] at hparts
  exact ⟨c, lane, v, n, hc, hlane, hv, hlength, List.mem_of_head? hn, hparts⟩

theorem blinks_fades : ∃ c lane v n, compile blinks reelMedia .default "font" = .ok c ∧
    blinks.lane = .ok lane ∧ lane[0]? = some v ∧ minClipDuration ≤ v.visibleDuration ∧
    n ∈ c.graph.nodes ∧ n.op = "clip" ∧ .source 0 .video ∈ n.inputs ∧
    n.FadesAlone v.visibleDuration ((blinks.grouping lane).fadesOf 0) := by
  obtain ⟨c, lane, v, n, hc, hlane, hv, hlength, hn, hop, hinputs, -⟩ := blinks_compiled
  obtain ⟨lane', hlane', hfades⟩ := compile_fades hc
  cases hlane.symm.trans hlane'
  have hlong : minClipDuration ≤ v.visibleDuration := by
    rw [hlength, minClipDuration_eq]
    norm_num
  have hread : .source ((0 : Nat) : Int) .video ∈ n.inputs := by simp [hinputs]
  exact ⟨c, lane, v, n, hc, hlane, hv, hlong, hn, hop, hread,
    (hfades 0 v hv hlong).2 n hn hop .video hread⟩

/-- The fades of its first clip take more than their share of it, and are not apart. -/
theorem blinks_overfade : ∃ c lane v n f f', compile blinks reelMedia .default "font" = .ok c ∧
    blinks.lane = .ok lane ∧ lane[0]? = some v ∧ minClipDuration ≤ v.visibleDuration ∧
    n ∈ c.graph.nodes ∧ .source 0 .video ∈ n.inputs ∧
    f ∈ fadeSpans n.filters ∧ f' ∈ fadeSpans n.filters ∧ f.side = .start ∧ f'.side = .finish ∧
    maxFadeShare * v.visibleDuration < f.length ∧ f'.start < f.finish := by
  obtain ⟨c, lane, v, n, hc, hlane, hv, hlength, hn, -, hinputs, hspans⟩ := blinks_compiled
  refine ⟨c, lane, v, n, ⟨.start, 0, 1 / 10⟩, ⟨.finish, 1 / 40, 1 / 10⟩, hc, hlane, hv, ?_, hn,
    by simp [hinputs], by simp [hspans], by simp [hspans], rfl, rfl, ?_, ?_⟩
  · rw [hlength, minClipDuration_eq]
    norm_num
  · rw [hlength, maxFadeShare_eq]
    norm_num
  · norm_num [FadeSpan.finish]

end Montage
