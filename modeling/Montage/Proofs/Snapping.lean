/-
Where a thing snaps to that is dragged along a track, in exact arithmetic.

The edges of other things, and zero, are offered to its start and then to its end, and an offer is
taken only if it is nearer than all before it (`Snap.foldl_offer_cases`). So the start snaps to the
nearest edge, if that is nearer than the threshold and as near as any edge is to the end; otherwise
the end does, if an edge is that near to it. Nothing snaps to before zero or by as much as the
threshold (`snap_nearest_edge`).
-/
import Montage.Proofs.FreePlaces

namespace Montage

/-! ## Edges -/

theorem Scalar.mem_foldl_distinct {x : Rat} :
    ∀ {xs seen : List Rat},
      x ∈ xs.foldl (fun seen y => if seen.any (y == ·) then seen else y :: seen) seen ↔
        x ∈ seen ∨ x ∈ xs
  | [], seen => by simp
  | y :: xs, seen => by
    rw [List.foldl_cons, mem_foldl_distinct]
    split
    · next hseen =>
      have hy : y ∈ seen := by simpa using hseen
      grind
    · grind

theorem Scalar.mem_distinct {x : Rat} {xs : List Rat} : x ∈ Scalar.distinct xs ↔ x ∈ xs := by
  rw [Scalar.distinct, List.mem_reverse, mem_foldl_distinct]
  simp

variable {β ι : Type} [Timed β Rat ι] [BEq ι]

/-- Zero, and where the things other than one start and end. -/
def edges (items : List β) (except : Option ι) : Set Rat :=
  {p | p = 0 ∨ ∃ b ∈ others items except, p = Timed.start b ∨ p = Timed.start b + Timed.length b}

theorem mem_snapPoints {items : List β} {except : Option ι} {p : Rat} :
    p ∈ snapPoints items except ↔ p ∈ edges items except := by
  have hspan : (∃ s ∈ spans items except, p = s.1 ∨ p = s.2) ↔
      ∃ b ∈ others items except, p = Timed.start b ∨ p = Timed.start b + Timed.length b := by
    simp only [mem_spans]
    constructor
    · rintro ⟨_, ⟨b, hb, rfl⟩, hp⟩
      exact ⟨b, hb, hp⟩
    · rintro ⟨b, hb, hp⟩
      exact ⟨_, ⟨b, hb, rfl⟩, hp⟩
  rw [snapPoints, List.mem_mergeSort, Scalar.mem_distinct, List.mem_cons, Scalar.zero_eq,
    List.mem_flatMap]
  simp only [List.mem_cons, List.not_mem_nil, or_false]
  exact or_congr_right hspan

theorem snapPoints_sorted (items : List β) (except : Option ι) :
    (snapPoints items except).Pairwise (· ≤ ·) := by
  refine (List.pairwise_mergeSort (fun a b c hab hbc => ?_) (fun a b => ?_) _).imp fun h => ?_
  · simp only [Bool.not_eq_true', decide_eq_false_iff_not, not_lt] at *
    exact hab.trans hbc
  · simpa using le_total a b
  · simpa using h

/-- Some edge is the nearest to a time. -/
theorem exists_isNearest_edge (items : List β) (except : Option ι) (time : Rat) :
    ∃ p, IsNearest time (edges items except) p := by
  have hzero : (0 : Rat) ∈ snapPoints items except := mem_snapPoints.2 (.inl rfl)
  have hplaces : {q | q ∈ snapPoints items except} = edges items except :=
    Set.ext fun _ => mem_snapPoints
  rw [← hplaces]
  cases hpoints : snapPoints items except with
  | nil => simp [hpoints] at hzero
  | cons q points =>
    exact ⟨_, nearest_isNearest (hpoints ▸ snapPoints_sorted items except) rfl⟩

theorem IsNearest.unique {time p q : Rat} {places : Set Rat} (hp : IsNearest time places p)
    (hq : IsNearest time places q) : p = q := by
  obtain ⟨hpq, hple⟩ := hp.2 q hq.1
  obtain ⟨hqp, hqle⟩ := hq.2 p hp.1
  exact le_antisymm (hple (le_antisymm hqp hpq)) (hqle (le_antisymm hpq hqp))

/-! ## The search -/

/-- What comes of a search that is offered points in order: what there was, if no point is nearer, and
otherwise the first of the nearest ones. -/
theorem Snap.foldl_offer_cases (time : Rat) (target : Rat → Rat) :
    ∀ {points : List Rat} (s : Snap Rat), points.Pairwise (· ≤ ·) →
      let found := points.foldl (fun s p => s.offer (Scalar.distance time p) (target p)) s
      (found = s ∧ ∀ p ∈ points, s.distance ≤ |p - time|) ∨
        ∃ p, IsNearest time {q | q ∈ points} p ∧ |p - time| < s.distance ∧
          found = ⟨target p, |p - time|⟩
  | [], s, _ => .inl ⟨rfl, by simp⟩
  | q :: points, s, h => by
    obtain ⟨hq, hrest⟩ := List.pairwise_cons.1 h
    have hdist : Scalar.distance time q = |q - time| := by
      rw [Scalar.distance_eq_abs, abs_sub_comm]
    simp only [List.foldl_cons, Snap.offer, hdist]
    split
    · next hnear =>
      rcases foldl_offer_cases time target ⟨target q, |q - time|⟩ hrest with
        ⟨hfound, hall⟩ | ⟨p, ⟨hp, hmin⟩, hlt, hfound⟩
      · refine .inr ⟨q, ⟨by simp, fun r hr => ?_⟩, hnear, hfound⟩
        rcases List.mem_cons.1 hr with rfl | hr
        · exact ⟨le_rfl, fun _ => le_rfl⟩
        · exact ⟨hall r hr, fun _ => hq r hr⟩
      · refine .inr ⟨p, ⟨List.mem_cons_of_mem _ hp, fun r hr => ?_⟩, hlt.trans hnear, hfound⟩
        rcases List.mem_cons.1 hr with rfl | hr
        · exact ⟨hlt.le, fun he => absurd he hlt.ne'⟩
        · exact hmin r hr
    · next hfar =>
      rcases foldl_offer_cases time target s hrest with
        ⟨hfound, hall⟩ | ⟨p, ⟨hp, hmin⟩, hlt, hfound⟩
      · exact .inl ⟨hfound, List.forall_mem_cons.2 ⟨not_lt.1 hfar, hall⟩⟩
      · have hless := hlt.trans_le (not_lt.1 hfar)
        refine .inr ⟨p, ⟨List.mem_cons_of_mem _ hp, fun r hr => ?_⟩, hlt, hfound⟩
        rcases List.mem_cons.1 hr with rfl | hr
        · exact ⟨hless.le, fun he => absurd he hless.ne'⟩
        · exact hmin r hr

/-- A search among the edges takes the nearest one, if it is nearer than what there was. -/
theorem foldl_offer_snapPoints {items : List β} {except : Option ι} {time p : Rat}
    (hp : IsNearest time (edges items except) p) (target : Rat → Rat) (s : Snap Rat) :
    (snapPoints items except).foldl (fun s q => s.offer (Scalar.distance time q) (target q)) s =
      if |p - time| < s.distance then ⟨target p, |p - time|⟩ else s := by
  have hplaces : {q | q ∈ snapPoints items except} = edges items except :=
    Set.ext fun _ => mem_snapPoints
  rcases Snap.foldl_offer_cases time target s (snapPoints_sorted items except) with
    ⟨hfound, hall⟩ | ⟨q, hq, hlt, hfound⟩
  · rw [hfound, if_neg (not_lt.2 (hall p (mem_snapPoints.2 hp.1)))]
  · rw [hplaces] at hq
    rw [hfound, hq.unique hp, if_pos (hq.unique hp ▸ hlt)]

/-! ## Snapping -/

/-- What is found for the start is exchanged for what is found for the end only if that is nearer. -/
theorem snap_eq {items : List β} {except : Option ι} {time length p q : Rat}
    (hp : IsNearest time (edges items except) p)
    (hq : IsNearest (time + length) (edges items except) q) (threshold : Rat) :
    snap items time length except threshold =
      max 0 (if |q - (time + length)| < min |p - time| threshold then q - length
        else if |p - time| < threshold then p else time) := by
  simp only [snap, foldl_offer_snapPoints hp, foldl_offer_snapPoints hq, Scalar.larger_eq_max,
    Scalar.zero_eq]
  by_cases hnear : |p - time| < threshold
  · simp only [if_pos hnear, min_eq_left hnear.le]
    split <;> rfl
  · simp only [if_neg hnear, min_eq_right (not_lt.1 hnear)]
    split <;> rfl

theorem edge_nonneg {items : List β} {except : Option ι} {p : Rat}
    (hstart : ∀ b ∈ items, 0 ≤ Timed.start b) (hlength : ∀ b ∈ items, 0 ≤ Timed.length b)
    (hp : p ∈ edges items except) : 0 ≤ p := by
  rcases hp with rfl | ⟨b, hb, rfl | rfl⟩
  · exact le_rfl
  · exact hstart b (List.mem_of_mem_filter hb)
  · exact add_nonneg (hstart b (List.mem_of_mem_filter hb)) (hlength b (List.mem_of_mem_filter hb))

/-- To be moved up to zero brings nothing further from a time that is not before it. -/
theorem abs_max_zero_sub_le {time : Rat} (htime : 0 ≤ time) (x : Rat) :
    |max 0 x - time| ≤ |x - time| := by
  have h := abs_max_sub_max_le_abs x time 0
  rwa [max_eq_left htime, max_comm] at h

/-- **Where a dragged thing snaps to.** Let `p` be the edge nearest to where it starts, and `q` the one
nearest to where it ends, in each case the earlier one of two. If neither is nearer than the
threshold, the thing stays. If the start is that near to its edge, and no further from it than the
end is from its own, the start snaps; and if the end is that near to its edge and nearer than
the start, the end does. In the end it starts no earlier than zero, and less than the threshold
from where it was. -/
theorem snap_nearest_edge {items : List β} {time threshold : Rat}
    (hstart : ∀ b ∈ items, 0 ≤ Timed.start b) (hlength : ∀ b ∈ items, 0 ≤ Timed.length b)
    (htime : 0 ≤ time) (length : Rat) (except : Option ι) (hthreshold : 0 < threshold) :
    ∃ p q, IsNearest time (edges items except) p ∧
      IsNearest (time + length) (edges items except) q ∧
      (threshold ≤ |p - time| → threshold ≤ |q - (time + length)| →
        snap items time length except threshold = time) ∧
      (|p - time| < threshold → |p - time| ≤ |q - (time + length)| →
        snap items time length except threshold = p) ∧
      (|q - (time + length)| < threshold → |q - (time + length)| < |p - time| →
        snap items time length except threshold = max 0 (q - length)) ∧
      0 ≤ snap items time length except threshold ∧
      |snap items time length except threshold - time| < threshold := by
  obtain ⟨p, hp⟩ := exists_isNearest_edge items except time
  obtain ⟨q, hq⟩ := exists_isNearest_edge items except (time + length)
  have hpos : 0 ≤ p := edge_nonneg hstart hlength hp.1
  have hfound := snap_eq hp hq threshold
  refine ⟨p, q, hp, hq, fun hfar hother => ?_, fun hnear hle => ?_, fun hnear hlt => ?_, ?_, ?_⟩
  · rw [hfound, if_neg (not_lt.2 (min_le_of_right_le hother)), if_neg (not_lt.2 hfar),
      max_eq_right htime]
  · rw [hfound, if_neg (not_lt.2 (min_le_of_left_le hle)), if_pos hnear, max_eq_right hpos]
  · rw [hfound, if_pos (lt_min hlt hnear)]
  · rw [hfound]
    exact le_max_left _ _
  · rw [hfound]
    refine (abs_max_zero_sub_le htime _).trans_lt ?_
    split
    · next hend =>
      have he : q - length - time = q - (time + length) := by ring
      rw [he]
      exact hend.trans_le (min_le_right _ _)
    · split
      · assumption
      · rwa [sub_self, abs_zero]

/-- A caption of which the end snaps to the start of another one: its own start is at no edge then. -/
theorem nested_snap_nearest_edge :
    (∀ b ∈ nested, 0 ≤ Timed.start b) ∧ (∀ b ∈ nested, 0 ≤ Timed.length b) ∧
      (0 : Rat) ≤ 11 / 2 ∧ (0 : Rat) < 1 / 2 ∧
      snapPoints nested (some "d") = [0, 1, 3 / 2, 5 / 2, 3, 7, 10] ∧
      snap nested (11 / 2) (5 / 4) (some "d") (1 / 2) = 23 / 4 ∧
      (∃ q, IsNearest (11 / 2 + 5 / 4) (edges nested (some "d")) q ∧
        (23 / 4 : Rat) = max 0 (q - 5 / 4)) ∧
      |(23 / 4 : Rat) - 11 / 2| < 1 / 2 := by
  have hstart : ∀ b ∈ nested, 0 ≤ Timed.start b := by decide +kernel
  have hlength : ∀ b ∈ nested, 0 ≤ Timed.length b := by decide +kernel
  have htime : (0 : Rat) ≤ 11 / 2 := by norm_num
  have hthreshold : (0 : Rat) < 1 / 2 := by norm_num
  have hpoints : snapPoints nested (some "d") = [0, 1, 3 / 2, 5 / 2, 3, 7, 10] := by cbv
  have hfound : snap nested (11 / 2) (5 / 4) (some "d") (1 / 2) = 23 / 4 := by cbv
  obtain ⟨p, q, hp, hq, hstay, hbegin, hend, -, hless⟩ :=
    snap_nearest_edge hstart hlength htime (5 / 4) (some "d") hthreshold
  rw [hfound] at hstay hbegin hend hless
  have hstart_ne : (23 / 4 : Rat) ≠ p := by
    rintro rfl
    have hmem := mem_snapPoints.2 hp.1
    rw [hpoints] at hmem
    norm_num at hmem
  have hnear : |q - (11 / 2 + 5 / 4)| < min |p - 11 / 2| (1 / 2) := by
    by_contra hfar
    have hmoved : (23 / 4 : Rat) ≠ 11 / 2 := by norm_num
    rw [not_lt, min_le_iff] at hfar
    rcases lt_or_ge |p - 11 / 2| (1 / 2) with hlt | hge
    · exact hstart_ne (hbegin hlt (hfar.elim id hlt.le.trans))
    · exact hmoved (hstay hge (hfar.elim hge.trans id))
  exact ⟨hstart, hlength, htime, hthreshold, hpoints, hfound,
    ⟨q, hq, hend (hnear.trans_le (min_le_right _ _)) (hnear.trans_le (min_le_left _ _))⟩, hless⟩

end Montage
