/-
The parts of a picture, whatever its numbers are.

Each clip is in one run, and the runs come in order of their clips
(`pieces_clips`); the joins of a run link each of its clips to the next
(`linked_of_mem_pieces`); a gap stands right in front of the run that starts at its clip
(`gapsOf_pieces`). What one more clip keeps true of an open run is true of every
run in the end (`exists_of_mem_pieces`).
-/
import Montage.Layout.Grouping
import Mathlib.Data.List.Range

namespace Montage

variable {α ι : Type}

/-! ## Gaps by their clips -/

section Gaps

variable [Scalar α] {β : Type} [Timed β α ι]

theorem before_of_mem_gapsFrom {g : Gap α} :
    ∀ {items : List β} {index : Nat} {reached : α}, g ∈ gapsFrom index reached items →
      index ≤ g.before ∧ g.before < index + items.length
  | [], _, _, h => by simp [gapsFrom] at h
  | b :: items, index, reached, h => by
    have later (hg : g ∈ gapsFrom (index + 1)
        (Scalar.larger reached (Timed.start b + Timed.length b)) items) :
        index ≤ g.before ∧ g.before < index + (b :: items).length := by
      have := before_of_mem_gapsFrom hg
      rw [List.length_cons]
      omega
    simp only [gapsFrom] at h
    split at h
    · rcases List.mem_cons.1 h with rfl | h
      · simp
      · exact later h
    · exact later h

theorem gapsFrom_pairwise : ∀ (items : List β) (index : Nat) (reached : α),
    (gapsFrom index reached items).Pairwise fun g h => g.before < h.before
  | [], _, _ => List.Pairwise.nil
  | b :: items, index, reached => by
    simp only [gapsFrom]
    split
    · refine List.pairwise_cons.2 ⟨fun g hg => ?_, gapsFrom_pairwise items _ _⟩
      exact (before_of_mem_gapsFrom hg).1
    · exact gapsFrom_pairwise items _ _

end Gaps

theorem gapBefore?_cons (g : Gap α) (gaps : List (Gap α)) (i : Nat) :
    gapBefore? (g :: gaps) i =
      (gapBefore? gaps i).or (if g.before = i then some g.duration else none) := by
  rw [gapBefore?, gapBefore?, List.reverse_cons, List.find?_append, Option.map_or]
  congr 1
  by_cases h : g.before = i <;> simp [h]

theorem gapBefore?_eq_none {gaps : List (Gap α)} {i : Nat} (h : ∀ g ∈ gaps, g.before ≠ i) :
    gapBefore? gaps i = none := by
  simpa [gapBefore?] using h

/-- Gaps in order are those found in front of the clips one after another. -/
theorem filterMap_gapBefore? : ∀ (n low : Nat) {gaps : List (Gap α)},
    gaps.Pairwise (fun g h => g.before < h.before) →
    (∀ g ∈ gaps, low ≤ g.before ∧ g.before < low + n) →
    (List.range' low n).filterMap (fun i => (gapBefore? gaps i).map (Gap.mk i)) = gaps
  | 0, low, gaps, _, hb => by
    have : gaps = [] := List.eq_nil_iff_forall_not_mem.2 fun g hg => by
      have := hb g hg
      omega
    rw [this]
    rfl
  | n + 1, low, [], _, _ => by simp [gapBefore?]
  | n + 1, low, g :: gaps, hp, hb => by
    obtain ⟨hg, hp'⟩ := List.pairwise_cons.1 hp
    have hgn := hb g (by simp)
    rw [List.range'_succ, List.filterMap_cons]
    by_cases h : g.before = low
    · have hnone : gapBefore? gaps low = none := gapBefore?_eq_none fun k hk => by
        have := hg k hk
        omega
      have hrest : ∀ k ∈ gaps, low + 1 ≤ k.before ∧ k.before < low + 1 + n := fun k hk => by
        have := hg k hk
        have := hb k (by simp [hk])
        omega
      have hskip : ∀ i ∈ List.range' (low + 1) n, (gapBefore? (g :: gaps) i).map (Gap.mk i) =
          (gapBefore? gaps i).map (Gap.mk i) := fun i hi => by
        have hne : g.before ≠ i := by
          have := List.mem_range'_1.1 hi
          omega
        simp [gapBefore?_cons, hne]
      rw [List.filterMap_congr hskip, filterMap_gapBefore? n _ hp' hrest, gapBefore?_cons, hnone,
        if_pos h, ← h]
      rfl
    · have hlow : ∀ k ∈ g :: gaps, low + 1 ≤ k.before ∧ k.before < low + 1 + n := fun k hk => by
        have := hb k hk
        rcases List.mem_cons.1 hk with rfl | hk
        · omega
        · have := hg k hk
          omega
      have hnone : gapBefore? (g :: gaps) low = none := gapBefore?_eq_none fun k hk => by
        have := hlow k hk
        omega
      rw [hnone]
      exact filterMap_gapBefore? n _ hp hlow

/-! ## Runs -/

/-- The joins of a run link each of its clips to the next one. -/
structure Run.Linked (r : Run α ι) : Prop where
  nonempty : r.clips ≠ []
  lefts : r.joins.map (·.left) = r.clips.dropLast
  rights : r.joins.map (·.right) = r.clips.tail

/-- The clip after each gap among the parts, with the length of the gap. -/
def gapsOf : List (Piece α ι) → List (Option Nat × α)
  | [] => []
  | .gap d :: rest => (rest.head?.bind fun p => p.clips.head?, d) :: gapsOf rest
  | .run _ :: rest => gapsOf rest

variable [Scalar α] {gaps : List (Gap α)} {table : TransitionTable α ι}

@[simp] theorem Join.make_left (index : Nat) (x : Option (Transition α ι)) (total left right : α) :
    (Join.make index x total left right).left = index := by
  cases x <;> rfl

@[simp] theorem Join.make_right (index : Nat) (x : Option (Transition α ι))
    (total left right : α) : (Join.make index x total left right).right = index + 1 := by
  cases x <;> rfl

@[simp] theorem Join.make_transition (index : Nat) (x : Option (Transition α ι))
    (total left right : α) : (Join.make index x total left right).transition = x := by
  cases x <;> rfl

/-- A run with the clip after its last one. -/
def Run.grow (table : TransitionTable α ι) (len : Nat → α) (r : Run α ι) (index : Nat) :
    Run α ι :=
  r.extend (Join.make index (table.claim? index) r.duration (len index) (len (index + 1)))
    (len (index + 1))

omit [Scalar α] in
theorem Run.linked_single (i : Nat) (d : α) : (Run.single i d : Run α ι).Linked :=
  ⟨by simp [Run.single], rfl, rfl⟩

theorem Run.Linked.extend {r : Run α ι} (h : r.Linked) {join : Join α ι}
    (hlast : r.clips.getLast? = some join.left) (d : α) : (r.extend join d).Linked where
  nonempty := by simp [Run.extend]
  lefts := by
    have := List.dropLast_append_getLast? join.left hlast
    simp [Run.extend, h.lefts, this]
  rights := by
    obtain ⟨first, rest, hr⟩ := List.exists_cons_of_ne_nil h.nonempty
    have hrights := h.rights
    simp [Run.extend, hr] at hrights ⊢
    exact hrights

/-! ## What an open run keeps

The lengths of the clips are those of a function here, so that a run is told
apart by its indices alone. -/

variable {len : Nat → α} {top : Nat} {P : Run α ι → Nat → Prop}

theorem exists_of_mem_piecesFrom
    (single : ∀ i < top, P (Run.single i (len i)) i)
    (grow : ∀ r i, i + 1 < top → P r i → P (r.grow table len i) (i + 1)) {r : Run α ι} :
    ∀ (n : Nat) {growing : Run α ι} {index : Nat}, index + n < top → P growing index →
      .run r ∈ piecesFrom gaps table growing index (len index)
        ((List.range' (index + 1) n).map len) →
      ∃ i < top, P r i
  | 0, growing, index, htop, hg, h => by
    simp only [List.range'_zero, List.map_nil, piecesFrom, List.mem_singleton, Piece.run.injEq] at h
    exact ⟨index, htop, h ▸ hg⟩
  | n + 1, growing, index, htop, hg, h => by
    rw [List.range'_succ, List.map_cons, piecesFrom] at h
    -- A gap ends the open run and opens one of the next clip alone.
    split at h
    · simp only [List.mem_cons, Piece.run.injEq, reduceCtorEq, false_or] at h
      rcases h with rfl | h
      · exact ⟨index, by omega, hg⟩
      · exact exists_of_mem_piecesFrom single grow n (by omega) (single _ (by omega)) h
    · exact exists_of_mem_piecesFrom single grow n (by omega) (grow _ _ (by omega) hg) h

/-- What is true of a run of one clip, and stays true with one clip more, is true
of every run. -/
theorem exists_of_mem_pieces
    (single : ∀ i < top, P (Run.single i (len i)) i)
    (grow : ∀ r i, i + 1 < top → P r i → P (r.grow table len i) (i + 1)) {r : Run α ι}
    (h : .run r ∈ pieces gaps table ((List.range top).map len)) : ∃ i < top, P r i := by
  cases top with
  | zero => simp [pieces] at h
  | succ n =>
    rw [List.range_eq_range', List.range'_succ, List.map_cons, pieces] at h
    simp only [List.mem_append, Option.mem_toList, Option.map_eq_some_iff, reduceCtorEq,
      and_false, exists_false, false_or] at h
    exact exists_of_mem_piecesFrom single grow n (by omega) (single 0 (by omega)) h

omit [Scalar α] in
theorem eq_map_getD (lengths : List α) (d : α) :
    lengths = (List.range lengths.length).map fun i => lengths.getD i d :=
  List.ext_getElem (by simp) fun i hi _ => by simp [hi]

theorem linked_of_mem_pieces {lengths : List α} {r : Run α ι}
    (h : .run r ∈ pieces gaps table lengths) : r.Linked := by
  rw [eq_map_getD lengths 0.0] at h
  obtain ⟨i, -, hr, -⟩ := exists_of_mem_pieces
    (P := fun r i => r.Linked ∧ r.clips.getLast? = some i)
    (fun i _ => ⟨Run.linked_single i _, rfl⟩)
    (fun r i _ hr => ⟨hr.1.extend (by simpa using hr.2) _, by simp [Run.grow, Run.extend]⟩) h
  exact hr

/-! ## Every part in its place -/

section Opened

variable {γ : Type} {blank : α → List γ} {seen : Nat → List γ}

/-- A part of the picture opened up: what a gap comes to, or what the clips of a run come to one
after another. -/
def Piece.opened (blank : α → List γ) (seen : Nat → List γ) : Piece α ι → List γ
  | .gap d => blank d
  | .run r => r.clips.flatMap seen

theorem opened_piecesFrom : ∀ (rest : List α) (growing : Run α ι) (index : Nat) (left : α),
    (piecesFrom gaps table growing index left rest).flatMap (Piece.opened blank seen) =
      growing.clips.flatMap seen ++ (List.range' (index + 1) rest.length).flatMap fun i =>
        (gapBefore? gaps i).elim [] blank ++ seen i
  | [], growing, index, left => by simp [piecesFrom, Piece.opened]
  | right :: rest, growing, index, left => by
    rw [piecesFrom, List.length_cons, List.range'_succ, List.flatMap_cons]
    split
    · next d hd =>
      rw [List.flatMap_cons, List.flatMap_cons, opened_piecesFrom rest, hd]
      simp [Piece.opened, Run.single]
    · next hd =>
      rw [opened_piecesFrom rest, hd]
      simp [Run.extend]

/-- The parts of a picture opened up are its clips in order, each after the gap in front of it. -/
theorem opened_pieces (lengths : List α) :
    (pieces gaps table lengths).flatMap (Piece.opened blank seen) =
      (List.range lengths.length).flatMap fun i => (gapBefore? gaps i).elim [] blank ++ seen i := by
  cases lengths with
  | nil => rfl
  | cons first rest =>
    rw [pieces, List.flatMap_append, opened_piecesFrom, List.range_eq_range', List.length_cons,
      List.range'_succ, List.flatMap_cons]
    cases gapBefore? gaps 0 <;> simp [Piece.opened, Run.single]

end Opened

theorem pieces_clips (lengths : List α) :
    (pieces gaps table lengths).flatMap Piece.clips = List.range lengths.length := by
  have hopened : (Piece.clips : Piece α ι → List Nat) = Piece.opened (fun _ => []) fun i => [i] := by
    funext p
    cases p <;> simp [Piece.clips, Piece.opened]
  have hgap (i : Nat) : (gapBefore? gaps i).elim [] (fun _ => []) ++ [i] = [i] := by
    cases gapBefore? gaps i <;> rfl
  rw [hopened, opened_pieces]
  simp only [hgap, List.flatMap_singleton']

/-! ## Every gap once -/

theorem head_piecesFrom : ∀ (rest : List α) {growing : Run α ι} (index : Nat) (left : α),
    growing.clips ≠ [] →
      ((piecesFrom gaps table growing index left rest).head?.bind fun p => p.clips.head?) =
        growing.clips.head?
  | [], _, _, _, _ => rfl
  | right :: rest, growing, index, left, hne => by
    rw [piecesFrom]
    split
    · rfl
    · rw [head_piecesFrom rest _ _ (by simp [Run.extend]), Run.extend,
        List.head?_append_of_ne_nil _ hne]

theorem gapsOf_piecesFrom : ∀ (rest : List α) (growing : Run α ι) (index : Nat) (left : α),
    gapsOf (piecesFrom gaps table growing index left rest) =
      (List.range' (index + 1) rest.length).filterMap fun i =>
        (gapBefore? gaps i).map fun d => (some i, d)
  | [], _, _, _ => rfl
  | right :: rest, growing, index, left => by
    rw [piecesFrom, List.length_cons, List.range'_succ, List.filterMap_cons]
    split
    · next d hd =>
      rw [hd, gapsOf, gapsOf, head_piecesFrom rest _ _ (by simp [Run.single]), gapsOf_piecesFrom rest]
      rfl
    · next hd =>
      rw [hd, gapsOf_piecesFrom rest]
      rfl

/-- Each gap is in front of the run that starts at its clip, in the order of the gaps. -/
theorem gapsOf_pieces (lengths : List α) (hp : gaps.Pairwise fun g h => g.before < h.before)
    (hb : ∀ g ∈ gaps, g.before < lengths.length) :
    gapsOf (pieces gaps table lengths) = gaps.map fun g => (some g.before, g.duration) := by
  have hall : gapsOf (pieces gaps table lengths) =
      (List.range' 0 lengths.length).filterMap fun i =>
        (gapBefore? gaps i).map fun d => (some i, d) := by
    cases lengths with
    | nil => rfl
    | cons first rest =>
      rw [pieces, List.length_cons, List.range'_succ, List.filterMap_cons]
      cases gapBefore? gaps 0 with
      | none => exact gapsOf_piecesFrom rest _ _ _
      | some d =>
        rw [Option.map_some, Option.toList_some, List.singleton_append, gapsOf,
          head_piecesFrom rest _ _ (by simp [Run.single]), gapsOf_piecesFrom rest]
        rfl
  have hgaps := filterMap_gapBefore? lengths.length 0 hp fun g hg => ⟨by omega, by
    have := hb g hg
    omega⟩
  conv => rhs; rw [← hgaps]
  rw [hall, List.map_filterMap]
  refine List.filterMap_congr fun i _ => ?_
  rw [Option.map_map]
  rfl

end Montage
