/-
How far the picture drifts from the timeline, in exact arithmetic.

A space longer than the least gap is a gap of the picture, and puts the next clip as far from its
start as the end before it was; a shorter space or an overlap is dropped, and adds to the
distance (`start_near_place`). So a clip is placed no further from its start than the least
gap for each clip so far, and where no space is dropped it is placed at its start
(`groupClips_keeps_time`).
-/
import Mathlib
import Montage.Proofs.Layout.Lengths
import Montage.Proofs.Layout.Strip

namespace Montage

variable {ι : Type}

/-- The spaces in front of clips in order, the first one from a time on and each other one
from the end of the clip before. -/
def spacesFrom (reached : Rat) : List (Clip Rat ι) → List Rat
  | [] => []
  | c :: rest => (c.start - reached) :: spacesFrom c.finish rest

/-- The spaces before the first clip and between each clip and the next. -/
def spaces (lane : List (Clip Rat ι)) : List Rat := spacesFrom 0 lane

/-! ## The strip of a lane -/

/-- Gaps and clips with their lengths, one after another, the clips with their indices. -/
def stripFrom (index : Nat) (reached : Rat) (lane : List (Clip Rat ι)) : List (Option Nat × Rat) :=
  laidFrom (fun d => [(none, d)]) (fun i c => [(some i, c.visibleDuration)]) index reached lane

/-- How long a part of a strip is. -/
def extent (strip : List (Option Nat × Rat)) : Rat := (strip.map (·.2)).sum

@[simp] theorem extent_nil : extent [] = 0 := rfl

@[simp] theorem extent_cons (cell : Option Nat × Rat) (strip : List (Option Nat × Rat)) :
    extent (cell :: strip) = cell.2 + extent strip := rfl

@[simp] theorem extent_append (strip strip' : List (Option Nat × Rat)) :
    extent (strip ++ strip') = extent strip + extent strip' := by
  simp [extent]

variable {c : Clip Rat ι} {lane : List (Clip Rat ι)} {index : Nat} {reached : Rat}

theorem stripFrom_cons : stripFrom index reached (c :: lane) =
    (if reached + gapTolerance < c.start then [(none, c.start - reached)] else []) ++
      (some index, c.visibleDuration) :: stripFrom (index + 1) (max reached c.finish) lane := by
  rw [stripFrom, laidFrom, Scalar.larger_eq_max]
  rfl

variable (c) in
/-- The last clip ends a strip. -/
theorem exists_stripFrom_concat : ∀ (lane : List (Clip Rat ι)) (index : Nat) (reached : Rat),
    ∃ before, stripFrom index reached (lane ++ [c]) =
      before ++ [(some (index + lane.length), c.visibleDuration)]
  | [], index, reached => ⟨_, stripFrom_cons⟩
  | d :: lane, index, reached => by
    obtain ⟨before, hbefore⟩ := exists_stripFrom_concat lane (index + 1) (max reached d.finish)
    rw [List.cons_append, stripFrom_cons, hbefore, List.length_cons, Nat.add_right_comm,
      Nat.add_assoc index, ← List.cons_append, ← List.append_assoc]
    exact ⟨_, rfl⟩

/-! ## The distance between the two clocks -/

/-- A space that is no overlap to speak of, and is either a gap of the picture or small. -/
def Kept (slack s : Rat) : Prop := -overlapTolerance ≤ s ∧ (gapTolerance < s ∨ |s| ≤ slack)

/-- Each clip so far has moved the place of the next one away from its start by no more than a space
that is dropped. -/
theorem start_near_place {slack : Rat} (hslack : 0 ≤ slack) {i : Nat} {d : Rat}
    {after : List (Option Nat × Rat)} :
    ∀ {lane : List (Clip Rat ι)} {index : Nat} {reached place : Rat}
      {before : List (Option Nat × Rat)},
      (∀ s ∈ spacesFrom reached lane, Kept slack s) →
      (∀ c ∈ lane, minClipDuration ≤ c.visibleDuration) → |place - reached| ≤ slack * index →
      stripFrom index reached lane = before ++ (some i, d) :: after →
      ∃ k c, i = index + k ∧ lane[k]? = some c ∧ d = c.visibleDuration ∧
        |place + extent before - c.start| ≤ slack * (i + 1)
  | [], _, _, _, before, _, _, _, h => by
    cases before <;> cases h
  | c :: lane, index, reached, place, before, hspaces, hlong, hnear, h => by
    obtain ⟨⟨hearly, hkept⟩, hspaces⟩ := List.forall_mem_cons.1 hspaces
    obtain ⟨hc, hlong⟩ := List.forall_mem_cons.1 hlong
    have hlater : max reached c.finish = c.finish := max_eq_right (by
      rw [overlapTolerance_eq] at hearly
      rw [minClipDuration_eq] at hc
      rw [Clip.finish]
      linarith)
    -- From where the clip is placed, the rest of the strip is that of the clips after it.
    have hrest {place : Rat} {before : List (Option Nat × Rat)}
        (hplace : |place - c.start| ≤ slack * (index + 1))
        (h : (some index, c.visibleDuration) :: stripFrom (index + 1) c.finish lane =
          before ++ (some i, d) :: after) :
        ∃ k c', i = index + k ∧ (c :: lane)[k]? = some c' ∧ d = c'.visibleDuration ∧
          |place + extent before - c'.start| ≤ slack * (i + 1) := by
      cases before with
      | nil =>
        obtain ⟨⟨⟩, -⟩ := List.cons.inj h
        exact ⟨0, c, rfl, rfl, rfl, by simpa using hplace⟩
      | cons cell before =>
        obtain ⟨rfl, htail⟩ := List.cons.inj h
        have hnear : |place + c.visibleDuration - c.finish| ≤ slack * (index + 1 : Nat) := by
          rw [Clip.finish, add_sub_add_right_eq_sub]
          exact_mod_cast hplace
        obtain ⟨k, c', rfl, hk, hd, hbound⟩ := start_near_place hslack hspaces hlong hnear htail
        refine ⟨k + 1, c', by omega, by simpa using hk, hd, ?_⟩
        rwa [extent_cons, ← add_assoc]
    rw [abs_le] at hnear
    rw [stripFrom_cons, hlater] at h
    split at h
    next hgap =>
      -- A gap moves the place as far as the space.
      cases before with
      | nil => cases h
      | cons cell before =>
        obtain ⟨rfl, htail⟩ := List.cons.inj h
        rw [extent_cons, ← add_assoc]
        refine hrest ?_ htail
        rw [abs_le]
        constructor <;> linarith
    next hgap =>
      refine hrest ?_ h
      obtain ⟨hlow, hhigh⟩ := abs_le.1 (hkept.resolve_left fun hlt => hgap (by linarith))
      rw [abs_le]
      constructor <;> linarith

/-! ## Where the clips are placed -/

/-- The total length of what is placed before the clip with an index, the parts before those given
having taken some time. -/
def placeFrom (lane : List (Clip Rat ι)) (i : Nat) (passed : Rat) : List (Piece Rat ι) → Option Rat
  | [] => none
  | p :: rest =>
    if p.clips.contains i then
      some (passed + ((p.clips.takeWhile (· != i)).map (lengthAt lane)).sum)
    else placeFrom lane i (passed + p.duration) rest

/-- The total length of what is placed before the clip with an index. -/
def Grouping.place? (g : Grouping Rat ι) (lane : List (Clip Rat ι)) (i : Nat) : Option Rat :=
  placeFrom lane i 0 g.pieces

theorem takeWhile_bne_append_cons {i : Nat} {front back : List Nat} (h : i ∉ front) :
    (front ++ i :: back).takeWhile (· != i) = front := by
  rw [List.takeWhile_append_of_pos fun j hj => by
    simpa using fun he : j = i => h (he ▸ hj)]
  simp

/-- A clip is placed after the parts before its run and the clips before it in the run. -/
theorem exists_placeFrom (lane : List (Clip Rat ι)) {i : Nat} :
    ∀ {ps : List (Piece Rat ι)} (passed : Rat), i ∈ ps.flatMap Piece.clips →
      ∃ before r after front back, ps = before ++ .run r :: after ∧ r.clips = front ++ i :: back ∧
        placeFrom lane i passed ps =
          some (passed + (before.map Piece.duration).sum + (front.map (lengthAt lane)).sum)
  | [], _, h => by simp at h
  | p :: ps, passed, h => by
    rw [placeFrom]
    split
    next hin =>
      cases p with
      | gap d => cases hin
      | run r =>
        obtain ⟨front, back, hclips, hnot⟩ := List.eq_append_cons_of_mem (List.contains_iff_mem.1 hin)
        refine ⟨[], r, ps, front, back, rfl, hclips, ?_⟩
        rw [hclips, takeWhile_bne_append_cons hnot]
        simp
    next hout =>
      have hlater : i ∈ ps.flatMap Piece.clips := by
        rw [List.flatMap_cons, List.mem_append] at h
        exact h.resolve_left fun hin => hout (List.contains_iff_mem.2 hin)
      obtain ⟨before, r, after, front, back, rfl, hclips, hplace⟩ :=
        exists_placeFrom lane (passed + p.duration) hlater
      refine ⟨p :: before, r, after, front, back, rfl, hclips, ?_⟩
      rw [hplace, List.map_cons, List.sum_cons, ← add_assoc passed]

/-! ## Picture and timeline -/

/-- A part of the picture as a strip. -/
def Piece.strip (lane : List (Clip Rat ι)) : Piece Rat ι → List (Option Nat × Rat) :=
  Piece.opened (fun d => [(none, d)]) fun i => [(some i, lengthAt lane i)]

theorem extent_clips (lane : List (Clip Rat ι)) (indices : List Nat) :
    extent (indices.flatMap fun i => [(some i, lengthAt lane i)]) =
      (indices.map (lengthAt lane)).sum := by
  induction indices with
  | nil => rfl
  | cons i indices ih => rw [List.flatMap_cons, extent_append, ih, List.map_cons, List.sum_cons]; simp

theorem extent_strip {lane : List (Clip Rat ι)} {ps : List (Piece Rat ι)}
    (h : ∀ r, .run r ∈ ps → r.duration = (r.clips.map (lengthAt lane)).sum) :
    extent (ps.flatMap (Piece.strip lane)) = (ps.map Piece.duration).sum := by
  induction ps with
  | nil => rfl
  | cons p ps ih =>
    rw [List.flatMap_cons, extent_append, ih fun r hr => h r (List.mem_cons_of_mem _ hr),
      List.map_cons, List.sum_cons]
    congr 1
    cases p with
    | gap d => simp [Piece.strip, Piece.opened, Piece.duration]
    | run r => exact (extent_clips lane r.clips).trans (h r (by simp)).symm

variable [BEq ι] {lane : List (Clip Rat ι)} {slack : Rat}

/-- Where all spaces are gaps of the picture or small, so are the distances between picture and
timeline. -/
theorem keeps_time_within (hslack : 0 ≤ slack) (hspaces : ∀ s ∈ spaces lane, Kept slack s)
    (hlong : ∀ c ∈ lane, minClipDuration ≤ c.visibleDuration) :
    let g := groupClips lane (detectGaps lane) []
    (∀ i c, lane[i]? = some c →
      ∃ place, g.place? lane i = some place ∧ |place - c.start| ≤ slack * (i + 1)) ∧
    ∀ c, lane.getLast? = some c → |g.duration - c.finish| ≤ slack * lane.length := by
  intro g
  have hcover : g.pieces.flatMap Piece.clips = List.range lane.length :=
    (pieces_clips _).trans (by rw [List.length_map])
  have hruns : ∀ r, .run r ∈ g.pieces → r.duration = (r.clips.map (lengthAt lane)).sum :=
    fun r => duration_of_mem_pieces
  have hstrip : g.pieces.flatMap (Piece.strip lane) = stripFrom 0 0 lane := by
    rw [← Scalar.zero_eq]
    exact opened_groupClips fun i c hc => by rw [lengthAt_eq hc]
  have hnear {i : Nat} {d : Rat} {before after : List (Option Nat × Rat)}
      (h : stripFrom 0 0 lane = before ++ (some i, d) :: after) :=
    start_near_place hslack hspaces hlong (by simp : |(0 : Rat) - 0| ≤ slack * (0 : Nat)) h
  constructor
  · intro i c hc
    have hi : i ∈ g.pieces.flatMap Piece.clips := by
      rw [hcover, List.mem_range]
      exact (List.getElem?_eq_some_iff.1 hc).1
    obtain ⟨before, r, after, front, back, hparts, hclips, hplace⟩ :=
      exists_placeFrom lane 0 hi
    refine ⟨_, hplace, ?_⟩
    have hcell := hstrip
    rw [hparts, List.flatMap_append, List.flatMap_cons] at hcell
    have hrun : Piece.strip lane (.run r) =
        (front.flatMap fun j => [(some j, lengthAt lane j)]) ++
          (some i, lengthAt lane i) :: back.flatMap fun j => [(some j, lengthAt lane j)] := by
      simp [Piece.strip, Piece.opened, hclips]
    rw [hrun, List.append_assoc, ← List.append_assoc, List.cons_append] at hcell
    obtain ⟨k, c', hk, hc', -, hbound⟩ := hnear hcell.symm
    rw [Nat.zero_add] at hk
    subst hk
    cases hc.symm.trans hc'
    rw [extent_append, extent_clips, extent_strip fun r hr => hruns r (by simp [hparts, hr])] at hbound
    rwa [add_assoc 0]
  · intro c hc
    obtain ⟨init, rfl⟩ := List.getLast?_eq_some_iff.1 hc
    obtain ⟨before, hlast⟩ := exists_stripFrom_concat c init 0 0
    have hduration : g.duration = extent before + c.visibleDuration := by
      rw [Grouping.duration, Scalar.sum_eq, ← extent_strip hruns, hstrip, hlast]
      simp
    obtain ⟨k, c', hk, hc', -, hbound⟩ := hnear hlast
    rw [Nat.zero_add, Nat.zero_add] at hk
    subst hk
    rw [List.getElem?_concat_length] at hc'
    cases hc'
    rw [hduration, Clip.finish, add_sub_add_right_eq_sub, List.length_append, List.length_singleton]
    simpa using hbound

/-- **The picture keeps the time of the timeline.** Where no clip of a lane starts before the end of
the one before it and no transition has an effect, what is placed before a clip lasts until
its start, up to the least gap for each clip so far, and the picture lasts until the end of the
last clip, up to the least gap for each clip; it does so exactly if no space is dropped. -/
theorem groupClips_keeps_time {transitions : List (Transition Rat ι)}
    (hlong : ∀ c ∈ lane, minClipDuration ≤ c.visibleDuration)
    (hclear : ∀ s ∈ spaces lane, -overlapTolerance ≤ s)
    (hnone : ∀ x ∈ transitions, x.kind = .none) :
    let g := groupClips lane (detectGaps lane) transitions
    (∀ i c, lane[i]? = some c →
      ∃ place, g.place? lane i = some place ∧ |place - c.start| ≤ gapTolerance * (i + 1)) ∧
    (∀ c, lane.getLast? = some c → |g.duration - c.finish| ≤ gapTolerance * lane.length) ∧
    ((∀ s ∈ spaces lane, s = 0 ∨ gapTolerance < s) →
      (∀ i c, lane[i]? = some c → g.place? lane i = some c.start) ∧
        ∀ c, lane.getLast? = some c → g.duration = c.finish) := by
  have hplain : groupClips lane (detectGaps lane) transitions = groupClips lane (detectGaps lane) [] :=
    groupClips_of_ineffective _ fun x hx => by simp [Transition.place?, hnone x hx]
  rw [hplain]
  have hkept : ∀ s ∈ spaces lane, Kept gapTolerance s := fun s hs => by
    have hlow := hclear s hs
    refine ⟨hlow, (lt_or_ge gapTolerance s).imp_right fun hle => abs_le.2 ⟨?_, hle⟩⟩
    rw [overlapTolerance_eq] at hlow
    rw [gapTolerance_eq]
    linarith
  obtain ⟨hplaces, hend⟩ := keeps_time_within (by norm_num [gapTolerance_eq]) hkept hlong
  refine ⟨hplaces, hend, fun hexact => ?_⟩
  have hexact : ∀ s ∈ spaces lane, Kept 0 s := fun s hs =>
    ⟨hclear s hs, (hexact s hs).symm.imp_right fun h => by simp [h]⟩
  obtain ⟨hplaces, hend⟩ := keeps_time_within le_rfl hexact hlong
  simp only [zero_mul, abs_nonpos_iff, sub_eq_zero] at hplaces hend
  refine ⟨fun i c hc => ?_, hend⟩
  obtain ⟨place, hplace, rfl⟩ := hplaces i c hc
  exact hplace

/-- A clip, one that starts a little after its end, one that starts a little before the end of that,
and one after a gap. -/
def looseShots : List (Clip Rat) :=
  [shot "a" 0 4, shot "b" (801 / 200) 1, shot "c" (10009 / 2000) 2, shot "d" 9 1]

/-- A transition that has no effect. -/
def hardCut : Transition Rat := ⟨"x", "b", .none, 2, .start⟩

theorem looseShots_keep_time :
    (∀ c ∈ looseShots, minClipDuration ≤ c.visibleDuration) ∧
      (∀ s ∈ spaces looseShots, -overlapTolerance ≤ s) ∧ (∀ x ∈ [hardCut], x.kind = .none) ∧
      (∃ place, (groupClips looseShots (detectGaps looseShots) [hardCut]).place? looseShots 3 =
        some place ∧ |place - 9| ≤ gapTolerance * (3 + 1)) ∧
      |(groupClips looseShots (detectGaps looseShots) [hardCut]).duration - 10| ≤ gapTolerance * 4 ∧
      (∀ s ∈ spaces shots, s = 0 ∨ gapTolerance < s) ∧
      (groupClips shots (detectGaps shots) [hardCut]).duration = 9 := by
  have hlong : ∀ c ∈ looseShots, minClipDuration ≤ c.visibleDuration := by decide +kernel
  have hclear : ∀ s ∈ spaces looseShots, -overlapTolerance ≤ s := by decide +kernel
  have hnone : ∀ x ∈ [hardCut], x.kind = .none := by decide
  obtain ⟨hplaces, hend, -⟩ := groupClips_keeps_time hlong hclear hnone
  obtain ⟨place, hplace, hnear⟩ := hplaces 3 (shot "d" 9 1) rfl
  have hexact : ∀ s ∈ spaces shots, s = 0 ∨ gapTolerance < s := by decide +kernel
  have hshots : ∀ c ∈ shots, minClipDuration ≤ c.visibleDuration := by decide +kernel
  obtain ⟨-, -, hkept⟩ := groupClips_keeps_time hshots (by decide +kernel) hnone
  refine ⟨hlong, hclear, hnone, ⟨place, hplace, by exact_mod_cast hnear⟩, ?_, hexact, ?_⟩
  · have hlast := hend (shot "d" 9 1) rfl
    norm_num [Clip.finish, Clip.visibleDuration, shot, looseShots] at hlast ⊢
    exact hlast
  · rw [(hkept hexact).2 (shot "c" 7 2) rfl]
    norm_num [Clip.finish, Clip.visibleDuration, shot]

end Montage
