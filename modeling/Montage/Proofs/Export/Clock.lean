/-
When the clips of a picture begin, in exact arithmetic.

A clip begins in the picture after the parts before its run, and in the run where its join says
(`Grouping.marks`). Each begins its overlap before the end of the one before it and the gap after
that (`Clocked`). If no clip starts before the end of an earlier one, then each starts on the
timeline where the one before it ends, a gap and less than a gap aside (`start_step`). So the two
clocks differ by what the cross-fades have taken, and by no more than the least gap a clip
(`start_near_mark`).
-/
import Montage.Proofs.Export.InStep

namespace Montage

variable {α ι : Type}

/-- When the clip with an index begins in the picture, and how long it is seen together with the one
before it. -/
structure Mark (α : Type) where
  clip : Nat
  beginning : α
  overlap : α
deriving BEq, Repr

/-- The marks of a run that begins at some time: its first clip begins with it, each other one at
its join. -/
def Run.marks [Scalar α] (r : Run α ι) (passed : α) : List (Mark α) :=
  (r.clips.take 1).map (⟨·, passed, 0.0⟩) ++
    r.joins.map fun j => ⟨j.right, passed + j.offset, j.overlap⟩

/-- The marks of the parts from some time on. -/
def marksFrom [Scalar α] (passed : α) : List (Piece α ι) → List (Mark α)
  | [] => []
  | .gap d :: rest => marksFrom (passed + d) rest
  | .run r :: rest => r.marks passed ++ marksFrom (passed + r.duration) rest

namespace Grouping

/-- The marks of the clips of a picture, in order. -/
def marks [Scalar α] (g : Grouping α ι) : List (Mark α) := marksFrom 0.0 g.pieces

/-- What the cross-fades have taken by the beginning of the clip with an index, its own included. -/
def fadedBy [Scalar α] (g : Grouping α ι) (index : Nat) : α :=
  Scalar.sum ((g.marks.take (index + 1)).map (·.overlap))

end Grouping

/-! ## The clock of the picture -/

/-- The clips from an index on begin where the clip before them ends, the gap in front of them
later and their overlap earlier. -/
def Clocked (gap : Nat → Option Rat) (len : Nat → Rat) : Nat → Rat → List (Mark Rat) → Prop
  | _, _, [] => True
  | index, reached, m :: rest =>
    m.clip = index ∧ m.beginning + m.overlap = reached + (gap index).getD 0 ∧
      Clocked gap len (index + 1) (m.beginning + len index) rest

variable {gaps : List (Gap Rat)} {table : TransitionTable Rat ι} {len : Nat → Rat}

@[simp] theorem Run.marks_single (index : Nat) (duration passed : Rat) :
    (Run.single index duration : Run Rat ι).marks passed = [⟨index, passed, 0⟩] := by
  simp [Run.marks, Run.single]

theorem Run.marks_extend {r : Run Rat ι} (h : r.clips ≠ []) (join : Join Rat ι) (right passed : Rat) :
    (r.extend join right).marks passed =
      r.marks passed ++ [⟨join.right, passed + join.offset, join.overlap⟩] := by
  obtain ⟨first, rest, hr⟩ := List.exists_cons_of_ne_nil h
  simp [marks, extend, hr]

variable (gaps table) in
/-- An open run keeps its marks; those of the clips after it go on from its end. -/
theorem marksFrom_piecesFrom : ∀ (n : Nat) (growing : Run Rat ι) (index : Nat) (passed : Rat),
    (∀ i ≤ index + n, 0 < len i) → growing.clips ≠ [] → len index ≤ growing.duration →
    ∃ later, marksFrom passed (piecesFrom gaps table growing index (len index)
        ((List.range' (index + 1) n).map len)) = growing.marks passed ++ later ∧
      later.length = n ∧
      Clocked (gapBefore? gaps) len (index + 1) (passed + growing.duration) later
  | 0, growing, index, passed, _, _, _ => ⟨[], by simp [piecesFrom, marksFrom], rfl, trivial⟩
  | n + 1, growing, index, passed, hpos, hclips, hwhole => by
    rw [List.range'_succ, List.map_cons, piecesFrom]
    have hrest : ∀ i ≤ index + 1 + n, 0 < len i := fun i hi => hpos i (by omega)
    split
    · -- A gap: the next clip begins a run of its own.
      next d hd =>
      obtain ⟨later, hmarks, hlength, hclock⟩ := marksFrom_piecesFrom n
        (.single (index + 1) (len (index + 1))) (index + 1) (passed + growing.duration + d) hrest
        (List.cons_ne_nil _ _) le_rfl
      refine ⟨⟨index + 1, passed + growing.duration + d, 0⟩ :: later, ?_, by simp [hlength], rfl, ?_,
        hclock⟩
      · rw [marksFrom, marksFrom, hmarks, Run.marks_single, List.singleton_append]
      · simp [hd]
    · -- No gap: the next clip begins at its join.
      next hd =>
      have hleft := hpos index (by omega)
      have hright := hpos (index + 1) (by omega)
      generalize hjoin : Join.make index (table.claim? index) growing.duration (len index)
        (len (index + 1)) = join
      obtain ⟨hle, -⟩ := Join.make_overlap_le index (table.claim? index) growing.duration hleft hright
      have hoffset := Join.make_offset (hle.trans hwhole)
      rw [hjoin] at hle hoffset
      obtain ⟨later, hmarks, hlength, hclock⟩ := marksFrom_piecesFrom n
        (growing.extend join (len (index + 1))) (index + 1) passed hrest
        (by simp [Run.extend]) (by simp only [Run.extend]; linarith)
      have hnext : join.right = index + 1 := by rw [← hjoin, Join.make_right]
      refine ⟨⟨join.right, passed + join.offset, join.overlap⟩ :: later, ?_, by simp [hlength], hnext,
        ?_, ?_⟩
      · rw [hmarks, Run.marks_extend hclips, List.append_assoc, List.singleton_append]
      · simp only [hd, Option.getD_none]
        linarith
      · have hend : passed + join.offset + len (index + 1) =
            passed + (growing.extend join (len (index + 1))).duration := by
          rw [Run.extend, add_assoc]
        rw [hend]
        exact hclock

/-- The clips of a picture begin one after another, all of them. -/
theorem marksFrom_pieces {top : Nat} (hpos : ∀ i < top, 0 < len i) :
    (marksFrom 0 (pieces gaps table ((List.range top).map len) : List (Piece Rat ι))).length = top ∧
      Clocked (gapBefore? gaps) len 0 0
        (marksFrom 0 (pieces gaps table ((List.range top).map len) : List (Piece Rat ι))) := by
  cases top with
  | zero => exact ⟨rfl, trivial⟩
  | succ n =>
    rw [List.range_eq_range', List.range'_succ, List.map_cons, pieces]
    obtain ⟨later, hmarks, hlength, hclock⟩ := marksFrom_piecesFrom gaps table n
      (.single 0 (len 0)) 0 ((gapBefore? gaps 0).getD 0) (fun i hi => hpos i (by omega))
      (List.cons_ne_nil _ _) le_rfl
    have hall : marksFrom 0 (((gapBefore? gaps 0).map Piece.gap).toList ++ piecesFrom gaps table
        (.single 0 (len 0)) 0 (len 0) ((List.range' 1 n).map len)) =
          ⟨0, (gapBefore? gaps 0).getD 0, 0⟩ :: later := by
      rw [Run.marks_single] at hmarks
      cases hgap : gapBefore? gaps 0 with
      | none => simpa [hgap] using hmarks
      | some d => simpa [hgap, marksFrom] using hmarks
    rw [hall]
    exact ⟨by simp [hlength], rfl, by simp, hclock⟩

namespace Clocked

variable {gap : Nat → Option Rat} {index k : Nat} {reached : Rat} {ms : List (Mark Rat)}
  {m m' : Mark Rat}

theorem head (h : Clocked gap len index reached ms) (hm : ms[0]? = some m) :
    m.beginning + m.overlap = reached + (gap index).getD 0 := by
  cases ms with
  | nil => simp at hm
  | cons n ms =>
    obtain rfl : n = m := by simpa using hm
    exact h.2.1

theorem clip (h : Clocked gap len index reached ms) (hm : ms[k]? = some m) : m.clip = index + k := by
  induction ms generalizing index k reached with
  | nil => simp at hm
  | cons n ms ih =>
    cases k with
    | zero =>
      obtain rfl : n = m := by simpa using hm
      exact h.1
    | succ k =>
      rw [List.getElem?_cons_succ] at hm
      rw [ih h.2.2 hm, Nat.add_right_comm, Nat.add_assoc]

theorem step (h : Clocked gap len index reached ms) (hm : ms[k]? = some m)
    (hm' : ms[k + 1]? = some m') :
    m'.beginning + m'.overlap = m.beginning + len (index + k) + (gap (index + (k + 1))).getD 0 := by
  induction ms generalizing index k reached with
  | nil => simp at hm
  | cons n ms ih =>
    rw [List.getElem?_cons_succ] at hm'
    cases k with
    | zero =>
      obtain rfl : n = m := by simpa using hm
      exact h.2.2.head hm'
    | succ k =>
      rw [List.getElem?_cons_succ] at hm
      have hstep := ih h.2.2 hm hm'
      rwa [Nat.add_right_comm, Nat.add_assoc, Nat.add_right_comm index, Nat.add_assoc] at hstep

end Clocked

/-! ## The clock of the timeline -/

section Lane

variable [Label ι Rat] {items : List (Clip Rat ι)} {a b : Clip Rat ι} {index k : Nat} {reached : Rat}

theorem not_early_of_unwarned (h : overlapWarnings reached (a :: items) = []) :
    reached - overlapTolerance ≤ a.start ∧ overlapWarnings (max reached a.finish) items = [] := by
  simp only [overlapWarnings, Scalar.larger_eq_max] at h
  split at h
  · cases h
  · next hlate => exact ⟨not_lt.1 hlate, h⟩

/-- A clip that is not warned of starts where what comes before it ends, and the gap later. -/
theorem start_head (h : overlapWarnings reached (a :: items) = []) :
    |a.start - (reached + (gapBefore? (gapsFrom index reached (a :: items)) index).getD 0)| ≤
      gapTolerance := by
  have hearly := (not_early_of_unwarned h).1
  rw [gapBefore?_gapsFrom_head, gapTolerance_eq]
  rw [overlapTolerance_eq] at hearly
  have hstart : Timed.start a = a.start := rfl
  rw [hstart]
  split
  · simp
  · next hgap =>
    rw [Option.getD_none, abs_le]
    constructor <;> linarith

variable (index) in
theorem start_step (h : overlapWarnings reached items = [])
    (hlong : ∀ c ∈ items, overlapTolerance ≤ c.visibleDuration) (ha : items[k]? = some a)
    (hb : items[k + 1]? = some b) :
    |b.start - (a.finish + (gapBefore? (gapsFrom index reached items) (index + (k + 1))).getD 0)| ≤
      gapTolerance := by
  induction items generalizing index k reached with
  | nil => simp at ha
  | cons c items ih =>
    obtain ⟨hearly, hrest⟩ := not_early_of_unwarned h
    obtain ⟨hc, hlong⟩ := List.forall_mem_cons.1 hlong
    rw [List.getElem?_cons_succ] at hb
    rw [gapBefore?_gapsFrom_later (by omega), Scalar.larger_eq_max]
    cases k with
    | zero =>
      obtain rfl : c = a := by simpa using ha
      obtain ⟨rest, rfl⟩ : ∃ rest, items = b :: rest := by
        cases items with
        | nil => simp at hb
        | cons d items => exact ⟨items, by simpa using hb⟩
      -- No clip before it ends later, since it does not start before their end.
      have hlast : max reached c.finish = c.finish := max_eq_right (by
        rw [Clip.finish]
        linarith)
      change |b.start - (c.finish + (gapBefore? (gapsFrom (index + 1) (max reached c.finish)
        (b :: rest)) (index + 1)).getD 0)| ≤ gapTolerance
      rw [hlast] at hrest ⊢
      exact start_head hrest
    | succ k =>
      rw [List.getElem?_cons_succ] at ha
      have hindex : index + (k + 1 + 1) = index + 1 + (k + 1) := by omega
      rw [hindex]
      exact ih _ hrest hlong ha hb

end Lane

/-! ## The two clocks -/

theorem Grouping.fadedBy_zero {g : Grouping Rat ι} {m : Mark Rat} (hm : g.marks[0]? = some m) :
    g.fadedBy 0 = m.overlap := by
  simp [fadedBy, List.take_add_one, hm]

theorem Grouping.fadedBy_succ {g : Grouping Rat ι} {m : Mark Rat} {k : Nat}
    (hm : g.marks[k + 1]? = some m) : g.fadedBy (k + 1) = g.fadedBy k + m.overlap := by
  rw [fadedBy, List.take_add_one, hm]
  simp [fadedBy]

variable {lane : List (Clip Rat ι)}

/-- The clips of a lane begin in its picture one after another, all of them. -/
theorem marks_clocked (hlane : ∀ c ∈ lane, 0 < c.visibleDuration) (table : TransitionTable Rat ι) :
    (marksFrom 0 (pieces (detectGaps lane) table (lane.map Clip.visibleDuration))).length =
        lane.length ∧
      Clocked (gapBefore? (detectGaps lane)) (lengthAt lane) 0 0
        (marksFrom 0 (pieces (detectGaps lane) table (lane.map Clip.visibleDuration))) := by
  have hpos : ∀ i < lane.length, 0 < lengthAt lane i := fun i hi => by
    rw [lengthAt_eq (List.getElem?_eq_getElem hi)]
    exact hlane _ (List.getElem_mem hi)
  rw [eq_map_getD (lane.map Clip.visibleDuration) 0, List.length_map]
  exact marksFrom_pieces hpos

variable [BEq ι] [Label ι Rat]

/-- Where no clip starts before the end of an earlier one, each starts on the timeline when it
begins in the picture, but for what the cross-fades have taken and for the least gap a clip. -/
theorem start_near_mark (transitions : List (Transition Rat ι))
    (hwarn : overlapWarnings 0 lane = [])
    (hlane : ∀ c ∈ lane, minClipDuration ≤ c.visibleDuration) :
    let g := groupClips lane (detectGaps lane) transitions
    g.marks.length = lane.length ∧
      ∀ (k : Nat) (c : Clip Rat ι) (m : Mark Rat), lane[k]? = some c → g.marks[k]? = some m →
        m.clip = k ∧ |c.start - (m.beginning + g.fadedBy k)| ≤ (k + 1) * gapTolerance := by
  have hpos : ∀ c ∈ lane, 0 < c.visibleDuration := fun c hc => by
    have := hlane c hc
    rw [minClipDuration_eq] at this
    linarith
  have hlong : ∀ c ∈ lane, overlapTolerance ≤ c.visibleDuration := fun c hc => by
    have := hlane c hc
    rw [minClipDuration_eq] at this
    rw [overlapTolerance_eq]
    linarith
  intro g
  have hmarks : g.marks = marksFrom 0 (pieces (detectGaps lane)
      (transitionTable (lane.map (·.id)) transitions) (lane.map Clip.visibleDuration)) := by
    rw [Grouping.marks, Scalar.zero_eq]
    rfl
  have hgaps : detectGaps lane = gapsFrom 0 0 lane := by rw [detectGaps, Scalar.zero_eq]
  obtain ⟨hlength, hclock⟩ := marks_clocked hpos (transitionTable (lane.map (·.id)) transitions)
  rw [← hmarks] at hlength hclock
  rw [hgaps] at hclock
  refine ⟨hlength, fun k c m hc hm => ⟨by simpa using hclock.clip hm, ?_⟩⟩
  induction k generalizing c m with
  | zero =>
    have hbegins := hclock.head hm
    obtain ⟨rest, rfl⟩ : ∃ rest, lane = c :: rest := by
      cases lane with
      | nil => simp at hc
      | cons d lane => exact ⟨lane, by simpa using hc⟩
    rw [g.fadedBy_zero hm, hbegins]
    simpa using start_head hwarn
  | succ k ih =>
    have hk : k < g.marks.length := (Nat.lt_succ_self k).trans (List.getElem?_eq_some_iff.1 hm).1
    obtain ⟨a, ha⟩ : ∃ a, lane[k]? = some a := ⟨_, List.getElem?_eq_getElem (hlength ▸ hk)⟩
    have hnear := ih a _ ha (List.getElem?_eq_getElem hk)
    have hbegins := hclock.step (List.getElem?_eq_getElem hk) hm
    have hstarts := start_step 0 hwarn hlong ha hc
    rw [lengthAt_eq (Nat.zero_add k ▸ ha)] at hbegins
    rw [g.fadedBy_succ hm]
    rw [Clip.finish] at hstarts
    rw [abs_le] at hnear hstarts ⊢
    push_cast
    constructor <;> linarith

end Montage
