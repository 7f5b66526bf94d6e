/-
The picture opened up along the timeline.

Opened up, a picture is its clips one after another, each after the gap in front of it
(`opened_pieces`). The gaps come from the starts and ends of the same clips, so that the opened
picture is one walk along the lane (`opened_groupClips`), whatever gaps and clips come to.
A transition that has no effect might as well not be listed (`groupClips_of_ineffective`), and with
none at all a run lasts as long as its clips together (`duration_of_mem_pieces`).
-/
import Montage.Proofs.Rational
import Montage.Proofs.Layout.Pieces
import Montage.Proofs.Layout.Table

namespace Montage

section General

variable {α ι β γ : Type} [Scalar α]

/-! ## The gaps of a walk -/

section Gaps

variable [Timed β α ι] {b : β} {items : List β} {index i : Nat} {reached : α}

theorem gapBefore?_gapsFrom_head : gapBefore? (gapsFrom index reached (b :: items)) index =
    if reached + gapTolerance < Timed.start b then some (Timed.start b - reached) else none := by
  have hnone (r : α) : gapBefore? (gapsFrom (index + 1) r items) index = none :=
    gapBefore?_eq_none fun g hg => by
      have := (before_of_mem_gapsFrom hg).1
      omega
  simp only [gapsFrom]
  split
  · rw [gapBefore?_cons, hnone, if_pos rfl, Option.none_or]
  · exact hnone _

theorem gapBefore?_gapsFrom_later (h : index < i) :
    gapBefore? (gapsFrom index reached (b :: items)) i = gapBefore?
      (gapsFrom (index + 1) (Scalar.larger reached (Timed.start b + Timed.length b)) items) i := by
  simp only [gapsFrom]
  split
  · rw [gapBefore?_cons, if_neg (by simpa using h.ne), Option.or_none]
  · rfl

end Gaps

/-! ## Walking along the lane -/

/-- What gaps and things come to along a track: `index` is that of the first thing, and `reached`
the latest end before it. -/
def laidFrom [Timed β α ι] (blank : α → List γ) (seen : Nat → β → List γ) (index : Nat)
    (reached : α) : List β → List γ
  | [] => []
  | b :: rest =>
    (if reached + gapTolerance < Timed.start b then blank (Timed.start b - reached) else []) ++
      (seen index b ++ laidFrom blank seen (index + 1)
        (Scalar.larger reached (Timed.start b + Timed.length b)) rest)

variable {blank : α → List γ}

theorem flatMap_gapsFrom [Timed β α ι] {seen : Nat → β → List γ} {at? : Nat → List γ} :
    ∀ {items : List β} {index : Nat} {reached : α},
      (∀ k b, items[k]? = some b → at? (index + k) = seen (index + k) b) →
      ((List.range' index items.length).flatMap fun i =>
        (gapBefore? (gapsFrom index reached items) i).elim [] blank ++ at? i) =
          laidFrom blank seen index reached items
  | [], _, _, _ => rfl
  | b :: items, index, reached, hseen => by
    have hfirst : at? index = seen index b := hseen 0 b rfl
    have hlater : ∀ i ∈ List.range' (index + 1) items.length,
        (gapBefore? (gapsFrom index reached (b :: items)) i).elim [] blank ++ at? i =
          (gapBefore? (gapsFrom (index + 1)
            (Scalar.larger reached (Timed.start b + Timed.length b)) items) i).elim [] blank ++
              at? i := fun i hi => by
      rw [gapBefore?_gapsFrom_later (List.mem_range'_1.1 hi).1]
    have hrest : ∀ k c, items[k]? = some c → at? (index + 1 + k) = seen (index + 1 + k) c :=
      fun k c hc => by
        rw [Nat.add_assoc, Nat.add_comm 1]
        exact hseen (k + 1) c hc
    rw [List.length_cons, List.range'_succ, List.flatMap_cons, List.flatMap_congr hlater,
      flatMap_gapsFrom hrest, gapBefore?_gapsFrom_head, laidFrom, List.append_assoc, ← hfirst]
    split <;> rfl

variable [BEq ι] {lane : List (Clip α ι)} {transitions : List (Transition α ι)}

/-- A picture opened up is a walk along its lane. -/
theorem opened_groupClips {seen : Nat → Clip α ι → List γ} {at? : Nat → List γ}
    (hseen : ∀ i c, lane[i]? = some c → at? i = seen i c) :
    (groupClips lane (detectGaps lane) transitions).pieces.flatMap (Piece.opened blank at?) =
      laidFrom blank seen 0 0.0 lane := by
  rw [groupClips, opened_pieces, List.length_map, List.range_eq_range']
  refine flatMap_gapsFrom fun k c hc => ?_
  rw [Nat.zero_add]
  exact hseen k c hc

/-! ## Transitions that have no effect -/

omit [Scalar α] in
theorem transitionTable_of_ineffective {ids : List ι} (h : ∀ x ∈ transitions, x.place? ids = none) :
    transitionTable ids transitions = [] := by
  refine List.eq_nil_iff_forall_not_mem.2 fun entry he => ?_
  obtain ⟨hmem, hplace⟩ := place?_of_mem_transitionTable he
  rw [h _ hmem] at hplace
  cases hplace

theorem groupClips_of_ineffective (gaps : List (Gap α))
    (h : ∀ x ∈ transitions, x.place? (lane.map (·.id)) = none) :
    groupClips lane gaps transitions = groupClips lane gaps [] := by
  rw [groupClips, groupClips, transitionTable_of_ineffective h]
  rfl

end General

/-! ## Lengths -/

variable {ι : Type}

/-- The length of the clip with an index. -/
def lengthAt (lane : List (Clip Rat ι)) (i : Nat) : Rat :=
  (lane.map Clip.visibleDuration).getD i 0

theorem lengthAt_eq {lane : List (Clip Rat ι)} {i : Nat} {clip : Clip Rat ι}
    (h : lane[i]? = some clip) : lengthAt lane i = clip.visibleDuration := by
  simp [lengthAt, h]

/-- Without transitions, a run lasts as long as its clips together. -/
theorem duration_of_mem_pieces [BEq ι] {lane : List (Clip Rat ι)} {gaps : List (Gap Rat)}
    {r : Run Rat ι} (h : .run r ∈ (groupClips lane gaps []).pieces) :
    r.duration = (r.clips.map (lengthAt lane)).sum := by
  rw [groupClips, eq_map_getD (lane.map Clip.visibleDuration) 0] at h
  obtain ⟨i, -, hsum⟩ := exists_of_mem_pieces
    (P := fun r _ => r.duration = (r.clips.map (lengthAt lane)).sum)
    (fun i _ => by simp [Run.single, lengthAt])
    (fun r i _ hr => by
      simp [Run.grow, Run.extend, transitionTable, TransitionTable.claim?, TransitionTable.get?,
        Join.make, hr, lengthAt]) h
  exact hsum

end Montage
