/-
The lengths of the parts of a picture, in exact arithmetic.

A cross-fade takes less than the whole of the shorter of its clips, so an open run
is always at least as long as its last clip (`Run.Open`): a join never starts before the
run does, and each one starts after the join before it. So the parts account
for every clip, gap and cross-fade once (`groupClips_accounts`).
-/
import Mathlib
import Montage.Proofs.Valid
import Montage.Proofs.Layout.Pieces
import Montage.Proofs.Layout.Table

namespace Montage

variable {ι : Type}

/-! ## Joins -/

/-- A cross-fade overlaps, but by no more than the greatest share of either clip; a cut
does not. -/
structure Join.Fits (len : Nat → Rat) (j : Join Rat ι) : Prop where
  fade : j.transition.isSome → 0 < j.overlap ∧
    j.overlap ≤ maxOverlapShare * len j.left ∧ j.overlap ≤ maxOverlapShare * len j.right
  cut : j.transition = none → j.overlap = 0

theorem Join.Fits.overlap_nonneg {len : Nat → Rat} {j : Join Rat ι} (h : j.Fits len) :
    0 ≤ j.overlap := by
  cases hx : j.transition with
  | none => exact (h.cut hx).ge
  | some x => exact (h.fade (by simp [hx])).1.le

theorem Join.Fits.overlap_lt {len : Nat → Rat} {j : Join Rat ι} (h : j.Fits len)
    (hleft : 0 < len j.left) : j.overlap < len j.left := by
  cases hx : j.transition with
  | none => rwa [h.cut hx]
  | some x =>
    have := (h.fade (by simp [hx])).2.1
    rw [maxOverlapShare_eq] at this
    linarith

theorem Join.make_fits {len : Nat → Rat} {index : Nat} {x : Option (Transition Rat ι)}
    (total : Rat) (hx : ∀ y ∈ x, 0 < y.duration) (hleft : 0 < len index)
    (hright : 0 < len (index + 1)) :
    (Join.make index x total (len index) (len (index + 1))).Fits len := by
  cases x with
  | none => exact ⟨by simp, fun _ => by simp [Join.make]⟩
  | some y =>
    refine ⟨fun _ => ?_, by simp⟩
    have hy := hx y rfl
    simp only [Join.make, Scalar.smaller_eq_min, maxOverlapShare_eq]
    refine ⟨lt_min (lt_min hy (by linarith)) (by linarith), ?_, ?_⟩
    · exact (min_le_left _ _).trans ((min_le_right _ _).trans (by linarith))
    · exact (min_le_right _ _).trans (by linarith)

/-- The guard against a start before the run's never acts. -/
theorem Join.make_offset {index : Nat} {x : Option (Transition Rat ι)} {total left right : Rat}
    (h : (Join.make index x total left right).overlap ≤ total) :
    (Join.make index x total left right).offset =
      total - (Join.make index x total left right).overlap := by
  cases x with
  | none => simp [Join.make]
  | some y =>
    simp only [Join.make, Scalar.larger_eq_max, Scalar.zero_eq] at h ⊢
    exact max_eq_right (by linarith)

/-! ## Runs -/

/-- How long a run is once its first joins are made. -/
def Run.builtTo (len : Nat → Rat) (r : Run Rat ι) (k : Nat) : Rat :=
  ((r.clips.take (k + 1)).map len).sum - ((r.joins.take k).map (·.overlap)).sum

/-- The clips of a run are stitched one to the next: each join starts its overlap
before the end of the run up to it, after the join before it. -/
structure Run.Stitched (len : Nat → Rat) (r : Run Rat ι) : Prop extends r.Linked where
  fits : ∀ j ∈ r.joins, j.Fits len
  offset : ∀ (k : Nat) (hk : k < r.joins.length),
    r.joins[k].offset = r.builtTo len k - r.joins[k].overlap
  positive : ∀ j ∈ r.joins, 0 < j.offset
  rising : r.joins.Pairwise fun j k => j.offset < k.offset
  duration : r.duration = (r.clips.map len).sum - (r.joins.map (·.overlap)).sum

/-- A run whose last clip has an index, and ends it: no join starts after the start of that
clip. -/
structure Run.Open (len : Nat → Rat) (r : Run Rat ι) (index : Nat) : Prop extends
    r.Stitched len where
  last : r.clips.getLast? = some index
  whole : len index ≤ r.duration
  before : ∀ j ∈ r.joins, j.offset + len index ≤ r.duration

theorem Run.Linked.length_clips {α : Type} {r : Run α ι} (h : r.Linked) :
    r.clips.length = r.joins.length + 1 := by
  have hr := congrArg List.length h.rights
  have := List.length_pos_iff.2 h.nonempty
  rw [List.length_map, List.length_tail] at hr
  omega

theorem Run.open_single (len : Nat → Rat) (i : Nat) :
    (Run.single i (len i) : Run Rat ι).Open len i where
  toLinked := Run.linked_single i _
  fits := by simp [Run.single]
  offset := by simp [Run.single]
  positive := by simp [Run.single]
  rising := by simp [Run.single]
  duration := by simp [Run.single]
  last := rfl
  whole := le_rfl
  before := by simp [Run.single]

theorem Run.Linked.builtTo_length {len : Nat → Rat} {r : Run Rat ι} (h : r.Linked) :
    r.builtTo len r.joins.length = (r.clips.map len).sum - (r.joins.map (·.overlap)).sum := by
  rw [Run.builtTo, ← h.length_clips, List.take_length, List.take_length]

theorem Run.Linked.builtTo_extend {len : Nat → Rat} {r : Run Rat ι} (h : r.Linked)
    (join : Join Rat ι) (d : Rat) {k : Nat} (hk : k ≤ r.joins.length) :
    (r.extend join d).builtTo len k = r.builtTo len k := by
  have hclips : k + 1 ≤ r.clips.length := by
    rw [h.length_clips]
    omega
  simp only [Run.builtTo, Run.extend]
  rw [List.take_append_of_le_length hclips, List.take_append_of_le_length hk]

/-- A clip more at the end of a run. -/
theorem Run.Open.extend {len : Nat → Rat} {r : Run Rat ι} {i : Nat} {join : Join Rat ι}
    (h : r.Open len i) (hi : 0 < len i) (hleft : join.left = i) (hfits : join.Fits len)
    (hoffset : join.offset = r.duration - join.overlap) :
    (r.extend join (len join.right)).Open len join.right := by
  have hwhole := h.whole
  have hlt : join.overlap < len i := hleft ▸ hfits.overlap_lt (hleft ▸ hi)
  have hpos := hfits.overlap_nonneg
  -- All joins before start by the start of the last clip, and this one starts within it.
  have hbefore : ∀ j ∈ r.joins, j.offset < join.offset := fun j hj => by
    have := h.before j hj
    linarith
  have hmem {p : Join Rat ι → Prop} (hold : ∀ j ∈ r.joins, p j) (hnew : p join) :
      ∀ j ∈ r.joins ++ [join], p j := fun j hj => by
    rcases List.mem_append.1 hj with hj | hj
    · exact hold j hj
    · rwa [List.mem_singleton.1 hj]
  exact {
    toLinked := h.toLinked.extend (hleft ▸ h.last) _
    fits := hmem h.fits hfits
    offset := fun k hk => by
      have hk' : k ≤ r.joins.length := by
        simp only [Run.extend, List.length_append, List.length_singleton] at hk
        omega
      rw [h.toLinked.builtTo_extend join _ hk']
      rcases Nat.lt_or_eq_of_le hk' with hlt | rfl
      · simpa [Run.extend, List.getElem_append_left hlt] using h.offset k hlt
      · rw [h.toLinked.builtTo_length, ← h.duration]
        simpa [Run.extend] using hoffset
    positive := hmem h.positive (by linarith)
    rising := List.pairwise_append.2 ⟨h.rising, List.pairwise_singleton _ _, by simpa using hbefore⟩
    duration := by
      simp only [Run.extend, hoffset, h.duration, List.map_append, List.sum_append, List.map_cons,
        List.map_nil, List.sum_singleton]
      ring
    last := by simp [Run.extend]
    whole := by
      simp only [Run.extend]
      linarith
    before := hmem (fun j hj => by
      have := hbefore j hj
      simp only [Run.extend]
      linarith) le_rfl }

theorem Run.Open.grow {len : Nat → Rat} {r : Run Rat ι} {i : Nat}
    {table : TransitionTable Rat ι} (h : r.Open len i) (hi : 0 < len i) (hnext : 0 < len (i + 1))
    (hx : ∀ x ∈ table.claim? i, 0 < x.duration) : (r.grow table len i).Open len (i + 1) := by
  have hfits := Join.make_fits r.duration hx hi hnext
  have hle := hfits.overlap_lt (by simpa using hi)
  rw [Join.make_left] at hle
  have hopen := h.extend hi (Join.make_left ..) hfits (Join.make_offset (hle.le.trans h.whole))
  rw [Join.make_right] at hopen
  exact hopen

/-! ## The whole picture -/

/-- The parts of a picture account for clips and gaps: each clip is in one run,
in order, each gap is in front of the run that starts at its clip, and lengths
add up to all but the overlaps. -/
structure Grouping.Accounts (g : Grouping Rat ι) (clips : List (Clip Rat ι))
    (gaps : List (Gap Rat)) : Prop where
  cover : g.pieces.flatMap Piece.clips = List.range clips.length
  spaces : gapsOf g.pieces = gaps.map fun gap => (some gap.before, gap.duration)
  runs : ∀ r, .run r ∈ g.pieces →
    r.Stitched fun i => (clips.map Clip.visibleDuration).getD i 0
  duration : g.duration = (clips.map Clip.visibleDuration).sum + (gaps.map Gap.duration).sum -
    ((g.pieces.flatMap Piece.joins).map (·.overlap)).sum

theorem sum_duration {len : Nat → Rat} : ∀ {ps : List (Piece Rat ι)},
    (∀ r, .run r ∈ ps → r.Stitched len) →
      (ps.map Piece.duration).sum = ((ps.flatMap Piece.clips).map len).sum +
        ((gapsOf ps).map (·.2)).sum - ((ps.flatMap Piece.joins).map (·.overlap)).sum
  | [], _ => by simp [gapsOf]
  | .gap d :: ps, h => by
    have ih := sum_duration fun r hr => h r (List.mem_cons_of_mem _ hr)
    simp only [List.map_cons, List.flatMap_cons, List.sum_cons, gapsOf, Piece.clips, Piece.joins,
      Piece.duration, List.nil_append, ih]
    ring
  | .run r :: ps, h => by
    have ih := sum_duration fun r hr => h r (List.mem_cons_of_mem _ hr)
    have hr := (h r (by simp)).duration
    simp only [List.map_cons, List.map_append, List.flatMap_cons, List.sum_cons, List.sum_append,
      gapsOf, Piece.clips, Piece.joins, Piece.duration, ih, hr]
    ring

/-- **Clips of positive length, grouped with their own gaps, are accounted for.** -/
theorem groupClips_accounts [BEq ι] {clips : List (Clip Rat ι)}
    {transitions : List (Transition Rat ι)} (hclips : ∀ c ∈ clips, 0 < c.visibleDuration)
    (hx : ∀ x ∈ transitions, x.Valid) :
    (groupClips clips (detectGaps clips) transitions).Accounts clips (detectGaps clips) := by
  let len (i : Nat) : Rat := (clips.map Clip.visibleDuration).getD i 0
  have hlengths : clips.map Clip.visibleDuration = (List.range clips.length).map len :=
    List.ext_getElem (by simp) fun i hi _ => by
      rw [List.length_map] at hi
      simp [len, hi]
  have hlen : ∀ i < clips.length, 0 < len i := fun i hi => by
    simpa [len, hi] using hclips clips[i] (List.getElem_mem hi)
  have hruns : ∀ r, .run r ∈ (groupClips clips (detectGaps clips) transitions).pieces →
      r.Stitched len := fun r hr => by
    rw [groupClips, hlengths] at hr
    obtain ⟨i, -, hr⟩ := exists_of_mem_pieces (P := fun r i => r.Open len i)
      (fun i _ => Run.open_single len i)
      (fun r i hi hr => hr.grow (hlen i (by omega)) (hlen _ hi) fun x hmem =>
        (hx x (mem_of_claim? hmem)).duration_pos) hr
    exact hr.toStitched
  let table := transitionTable (clips.map (·.id)) transitions
  have hcover : (pieces (detectGaps clips) table (clips.map Clip.visibleDuration)).flatMap
      Piece.clips = List.range (clips.map Clip.visibleDuration).length := pieces_clips _
  have hspaces : gapsOf (pieces (detectGaps clips) table (clips.map Clip.visibleDuration)) =
      (detectGaps clips).map fun gap => (some gap.before, gap.duration) :=
    gapsOf_pieces _ (gapsFrom_pairwise clips 0 0.0) fun g hg => by
      simpa using (before_of_mem_gapsFrom hg).2
  rw [List.length_map] at hcover
  refine ⟨hcover, hspaces, hruns, ?_⟩
  rw [Grouping.duration, Scalar.sum_eq, sum_duration hruns]
  simp only [groupClips]
  rw [hcover, hspaces, ← hlengths, List.map_map]
  rfl

/-- A clip that shows the whole of its media. -/
def shot (id : String) (start length : Rat) : Clip Rat where
  id := id
  mediaId := "m"
  trackId := "v"
  kind := .video
  name := id
  start := start
  rawDuration := length
  trimIn := 0
  trimOut := 0
  crop := none
  transform := none
  audioMuted := false
  detachedAudio := none
  linkedVideo := none

/-- Two clips that meet in a cross-fade longer than the second one, and one after a gap. -/
def shots : List (Clip Rat) := [shot "a" 0 4, shot "b" 4 1, shot "c" 7 2]

def dissolve : Transition Rat := ⟨"x", "b", .dissolve, 2, .start⟩

theorem shots_accounts :
    (∀ c ∈ shots, 0 < c.visibleDuration) ∧ (∀ x ∈ [dissolve], x.Valid) ∧
      gapsOf (groupClips shots (detectGaps shots) [dissolve]).pieces = [(some 2, 2)] ∧
      (groupClips shots (detectGaps shots) [dissolve]).duration = 81 / 10 := by
  have hclips : ∀ c ∈ shots, 0 < c.visibleDuration := by
    simp [shots, shot, Clip.visibleDuration]
  have hx : ∀ x ∈ [dissolve], x.Valid := fun x hx => by
    rw [List.mem_singleton.1 hx]
    exact ⟨by norm_num [dissolve, minTransitionDuration_eq]⟩
  have h := groupClips_accounts hclips hx
  refine ⟨hclips, hx, ?_, ?_⟩
  · rw [h.spaces]
    cbv
  · rw [h.duration]
    cbv

end Montage
