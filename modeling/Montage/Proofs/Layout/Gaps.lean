/-
The gaps that are found in front of things in order of their starts, in exact arithmetic.

The things may overlap, touch or lie within one another. What is found are the intervals from zero
up to the last start that none of them covers and that are no part of longer ones, if they are
longer than the tolerance: each once, in order, as the gap in front of the first thing that starts
where it ends (`detectGaps_intervals`).
-/
import Montage.Layout.Gap
import Montage.Proofs.FreePlaces

namespace Montage

variable {β ι : Type} [Timed β Rat ι]

/-- Where a thing starts and ends. -/
def span (b : β) : Rat × Rat := (Timed.start b, Timed.start b + Timed.length b)

/-- The free places in front of spans that are longer than the tolerance, `reached` being where the
first free place starts. -/
def openings (reached : Rat) : List (Rat × Rat) → List (Rat × Rat)
  | [] => []
  | s :: spans =>
    let later := openings (max reached s.2) spans
    if reached + gapTolerance < s.1 then (reached, s.1) :: later else later

/-- A gap that is found at an interval among things, the first of which has an index: it is as long, and
in front of the first thing that starts where the interval ends. -/
structure Gap.At (index : Nat) (items : List β) (s : Rat × Rat) (g : Gap Rat) : Prop where
  duration : g.duration = s.2 - s.1
  before : ∃ place, items.findIdx? (fun b => decide (Timed.start b = s.2)) = some place ∧
    g.before = index + place

/-! ## Free places -/

theorem mem_openings_iff {a b : Rat} :
    ∀ {spans : List (Rat × Rat)} {reached : Rat}, spans.Pairwise (fun s r => s.1 ≤ r.1) →
      (∀ s ∈ spans, s.1 < s.2) →
      ((a, b) ∈ openings reached spans ↔ Between spans reached a b ∧ gapTolerance < b - a)
  | [], reached, _, _ => by
    simp only [openings, List.not_mem_nil, false_iff, not_and]
    rintro ⟨-, -, -, ⟨s, hs, -⟩, -⟩
    simp at hs
  | s :: spans, reached, hsort, hproper => by
    have ih : (a, b) ∈ openings (max reached s.2) spans ↔
        Between spans (max reached s.2) a b ∧ gapTolerance < b - a :=
      mem_openings_iff (List.pairwise_cons.1 hsort).2 fun r hr => hproper r (by simp [hr])
    have hcases : (a, b) ∈ openings reached (s :: spans) ↔
        (a = reached ∧ b = s.1 ∧ reached + gapTolerance < s.1) ∨
          (a, b) ∈ openings (max reached s.2) spans := by
      rw [openings]
      split
      · next hlong => simp [hlong]
      · next hshort => simp [hshort]
    have htol : (0 : Rat) < gapTolerance := by norm_num [gapTolerance_eq]
    rw [hcases, ih, between_cons hsort hproper, or_and_right]
    refine or_congr_left ⟨?_, ?_⟩
    · rintro ⟨rfl, rfl, hlong⟩
      exact ⟨⟨rfl, rfl, by linarith⟩, by linarith⟩
    · rintro ⟨⟨rfl, rfl, -⟩, hlong⟩
      exact ⟨rfl, rfl, by linarith⟩

/-- Free places come in order, and a span is between any two of them. -/
theorem openings_sorted :
    ∀ {spans : List (Rat × Rat)} {reached : Rat}, spans.Pairwise (fun s r => s.1 ≤ r.1) →
      (∀ s ∈ spans, s.1 < s.2) → (openings reached spans).Pairwise fun s r => s.2 < r.1
  | [], _, _, _ => List.Pairwise.nil
  | s :: spans, reached, hsort, hproper => by
    have hrest := (List.pairwise_cons.1 hsort).2
    have hlong : ∀ r ∈ spans, r.1 < r.2 := fun r hr => hproper r (by simp [hr])
    have hlater : (openings (max reached s.2) spans).Pairwise fun s r => s.2 < r.1 :=
      openings_sorted hrest hlong
    rw [openings]
    split
    · refine List.pairwise_cons.2 ⟨fun r hr => ?_, hlater⟩
      obtain ⟨hbetween, -⟩ := (mem_openings_iff hrest hlong).1 hr
      exact (hproper s (by simp)).trans_le ((le_max_right _ _).trans hbetween.late)
    · exact hlater

/-! ## Gaps -/

theorem Gap.at_head (index : Nat) (reached : Rat) (b : β) (items : List β) :
    Gap.At index (b :: items) (reached, Timed.start b) ⟨index, Timed.start b - reached⟩ :=
  ⟨rfl, 0, by simp [List.findIdx?_cons], rfl⟩

theorem Gap.At.cons {index : Nat} {b : β} {items : List β} {s : Rat × Rat} {g : Gap Rat}
    (h : Gap.At (index + 1) items s g) (hne : Timed.start b ≠ s.2) : Gap.At index (b :: items) s g := by
  obtain ⟨hduration, place, hplace, hbefore⟩ := h
  exact ⟨hduration, place + 1, by simp [List.findIdx?_cons, hne, hplace], by omega⟩

/-- A gap is found at each free place. -/
theorem gapsFrom_openings :
    ∀ {items : List β} (index : Nat) {reached : Rat},
      items.Pairwise (fun b c => Timed.start b ≤ Timed.start c) →
      (∀ b ∈ items, 0 < Timed.length b) →
      List.Forall₂ (Gap.At index items) (openings reached (items.map span))
        (gapsFrom index reached items)
  | [], _, _, _, _ => List.Forall₂.nil
  | b :: items, index, reached, hsort, hlength => by
    obtain ⟨-, hrest⟩ := List.pairwise_cons.1 hsort
    have hlong : ∀ c ∈ items, 0 < Timed.length c := fun c hc => hlength c (by simp [hc])
    have hspans : (items.map span).Pairwise fun s r => s.1 ≤ r.1 := List.pairwise_map.2 hrest
    have hproper : ∀ s ∈ items.map span, s.1 < s.2 :=
      List.forall_mem_map.2 fun c hc => lt_add_of_pos_right _ (hlong c hc)
    -- The later free places end behind the start of the first thing.
    have hbehind : ∀ s ∈ openings (max reached (span b).2) (items.map span), Timed.start b ≠ s.2 := by
      rintro ⟨x, y⟩ hs
      obtain ⟨hbetween, -⟩ := (mem_openings_iff hspans hproper).1 hs
      have hend : Timed.start b < (span b).2 := lt_add_of_pos_right _ (hlength b (by simp))
      have hlate : (span b).2 ≤ x := (le_max_right _ _).trans hbetween.late
      exact ((hend.trans_le hlate).trans hbetween.proper).ne
    have hlater := (List.forall₂_and_left _ _).2 ⟨hbehind, gapsFrom_openings (index + 1) hrest hlong⟩
    have hlater := hlater.imp fun _ _ ⟨hne, hat⟩ => hat.cons hne
    rw [List.map_cons, openings, gapsFrom, Scalar.larger_eq_max]
    by_cases hlong : reached + gapTolerance < Timed.start b
    · rw [if_pos hlong, if_pos (show reached + gapTolerance < (span b).1 from hlong)]
      exact .cons (Gap.at_head index reached b items) hlater
    · rw [if_neg hlong, if_neg (show ¬ reached + gapTolerance < (span b).1 from hlong)]
      exact hlater

/-- Gaps are found in the order of the things that they are in front of. -/
theorem gapsFrom_sorted :
    ∀ (items : List β) (index : Nat) (reached : Rat),
      (∀ g ∈ gapsFrom index reached items, index ≤ g.before) ∧
        (gapsFrom index reached items).Pairwise fun g k => g.before < k.before
  | [], _, _ => ⟨by simp [gapsFrom], List.Pairwise.nil⟩
  | b :: items, index, reached => by
    obtain ⟨hlater, hsort⟩ := gapsFrom_sorted items (index + 1)
      (Scalar.larger reached (Timed.start b + Timed.length b))
    rw [gapsFrom]
    split
    · refine ⟨fun g hg => ?_, List.pairwise_cons.2 ⟨fun g hg => hlater g hg, hsort⟩⟩
      rcases List.mem_cons.1 hg with rfl | hg
      · exact le_rfl
      · exact (Nat.le_succ _).trans (hlater g hg)
    · exact ⟨fun g hg => (Nat.le_succ _).trans (hlater g hg), hsort⟩

/-- In order, the last thing starts last. -/
theorem start_le_getLast {items : List β} {last : β}
    (hsort : items.Pairwise fun b c => Timed.start b ≤ Timed.start c)
    (hlast : items.getLast? = some last) : ∀ b ∈ items, Timed.start b ≤ Timed.start last := by
  obtain ⟨early, rfl⟩ := List.getLast?_eq_some_iff.1 hlast
  obtain ⟨-, -, hle⟩ := List.pairwise_append.1 hsort
  intro b hb
  rcases List.mem_append.1 hb with hb | hb
  · exact hle b hb last (by simp)
  · rw [List.mem_singleton.1 hb]

/-- **The gaps that are found** are those that there are: in front of things in order of their starts,
each interval up to the last start that none of them covers and that is no part of a longer one, if
it is longer than the tolerance, has one gap, and there is no other. -/
theorem detectGaps_intervals {items : List β}
    (hsort : items.Pairwise fun b c => Timed.start b ≤ Timed.start c)
    (hlength : ∀ b ∈ items, 0 < Timed.length b) :
    ∃ intervals : List (Rat × Rat),
      (∀ a b, (a, b) ∈ intervals ↔
        ∃ last ∈ items.getLast?, IsGap items (Timed.start last) a b ∧ gapTolerance < b - a) ∧
      intervals.Pairwise (fun s r => s.2 < r.1) ∧
      List.Forall₂ (Gap.At 0 items) intervals (detectGaps items) ∧
      (detectGaps items).Pairwise fun g k => g.before < k.before := by
  have hspans : (items.map span).Pairwise fun s r => s.1 ≤ r.1 := List.pairwise_map.2 hsort
  have hproper : ∀ s ∈ items.map span, s.1 < s.2 :=
    List.forall_mem_map.2 fun c hc => lt_add_of_pos_right _ (hlength c hc)
  refine ⟨openings 0 (items.map span), fun a b => ?_, openings_sorted hspans hproper, ?_, ?_⟩
  · rw [mem_openings_iff hspans hproper]
    cases hlast : items.getLast? with
    | none =>
      rw [List.getLast?_eq_none_iff.1 hlast]
      refine iff_of_false ?_ (by simp)
      rintro ⟨⟨-, -, -, ⟨s, hs, -⟩, -⟩, -⟩
      simp at hs
    | some last =>
      have hgap : IsGap items (Timed.start last) a b ↔ Between (items.map span) 0 a b :=
        isGap_iff_between hlength List.mem_map (start_le_getLast hsort hlast)
          ⟨last, List.mem_of_getLast? hlast, .inl le_rfl⟩
      simp [hgap]
  · rw [detectGaps, Scalar.zero_eq]
    exact gapsFrom_openings 0 hsort hlength
  · exact (gapsFrom_sorted items 0 _).2

/-- Captions of which one is within the first, one starts where another ends, one starts too soon
behind the one before it for a gap, and the last two start at once. -/
def staggered : List (Overlay Rat) :=
  [caption "a" 1 4, caption "b" 2 1, caption "c" 5 1, caption "d" (1201 / 200) 1, caption "e" 8 1,
    caption "f" 8 2]

theorem staggered_detectGaps_intervals :
    staggered.Pairwise (fun b c => Timed.start b ≤ Timed.start c) ∧
      (∀ b ∈ staggered, 0 < Timed.length b) ∧
      detectGaps staggered = [⟨0, 1⟩, ⟨4, 199 / 200⟩] ∧
      ∃ s r, Gap.At 0 staggered s ⟨0, 1⟩ ∧ Gap.At 0 staggered r ⟨4, 199 / 200⟩ ∧ s.2 < r.1 ∧
        ∀ a b, IsGap staggered 8 a b ∧ gapTolerance < b - a ↔ (a, b) = s ∨ (a, b) = r := by
  have hsort : staggered.Pairwise fun b c => Timed.start b ≤ Timed.start c := by decide +kernel
  have hlength : ∀ b ∈ staggered, 0 < Timed.length b := by decide +kernel
  have hgaps : detectGaps staggered = [⟨0, 1⟩, ⟨4, 199 / 200⟩] := by cbv
  obtain ⟨intervals, hmem, hsorted, hat, -⟩ := detectGaps_intervals hsort hlength
  rw [hgaps] at hat
  obtain ⟨s, later, hs, hlater, rfl⟩ := List.forall₂_cons_right_iff.1 hat
  obtain ⟨r, last, hr, hlast, rfl⟩ := List.forall₂_cons_right_iff.1 hlater
  obtain rfl := List.forall₂_nil_right_iff.1 hlast
  refine ⟨hsort, hlength, hgaps, s, r, hs, hr, by simpa using hsorted, fun a b => ?_⟩
  have hiff := hmem a b
  simp only [List.mem_cons, List.not_mem_nil, or_false] at hiff
  rw [hiff]
  simp [staggered, caption, Timed.start]

end Montage
