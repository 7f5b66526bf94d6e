/-
Where a thing of some length fits among others, in exact arithmetic.

The place that is found for a thing meets nothing, unless the thing was to start before zero where
it meets nothing and then, moved to zero, meets something (`collides_freePosition_iff`).

If the place asked for is taken, it is the nearest of the starts of the gaps that are long enough,
which are the intervals that nothing covers and that are no part of longer ones (`IsGap`), and of
the end of all things (`freePosition_isNearest`).

A thing that is put among spaced ones where none of them is stays there, and so do they
(`resolve_of_freeAt`).
-/
import Mathlib
import Montage.Proofs.Resolving

namespace Montage

theorem Scalar.distance_eq_abs (a b : Rat) : Scalar.distance a b = |a - b| := by
  unfold Scalar.distance
  split
  · next h => rw [abs_sub_comm, abs_of_pos (sub_pos.2 h)]
  · next h => rw [abs_of_nonneg (sub_nonneg.2 (not_lt.1 h))]

theorem Scalar.greatest?_eq_max? (xs : List Rat) : Scalar.greatest? xs = xs.max? := by
  cases xs with
  | nil => rfl
  | cons x xs =>
    rw [Scalar.greatest?, List.max?_cons']
    congr 1
    exact congrArg (fun f => xs.foldl f x) (funext₂ Scalar.larger_eq_max)

variable {β ι : Type} [Timed β Rat ι] [BEq ι]

/-! ## Meeting other things -/

/-- The things other than one. -/
def others (items : List β) (except : Option ι) : List β :=
  items.filter fun b => some (Timed.id b) != except

theorem others_none (items : List β) : others items (none : Option ι) = items :=
  List.filter_eq_self.2 fun _ _ => rfl

/-- The times at which a thing is there. -/
def occupied (b : β) : Set Rat := Set.Ico (Timed.start b) (Timed.start b + Timed.length b)

/-- From a time on, for some length, none of some things is there. -/
def FreeAt (items : List β) (start length : Rat) : Prop :=
  ∀ b ∈ items, Disjoint (Set.Ico start (start + length)) (occupied b)

theorem mem_spans {items : List β} {except : Option ι} {s : Rat × Rat} :
    s ∈ spans items except ↔
      ∃ b ∈ others items except, (Timed.start b, Timed.start b + Timed.length b) = s := by
  rw [spans, List.mem_mergeSort, List.mem_map]
  rfl

theorem spanLt_iff (a b : Rat × Rat) :
    spanLt a b = true ↔ a.1 < b.1 ∨ a.1 = b.1 ∧ a.2 < b.2 := by
  simp [spanLt]

theorem spans_sorted (items : List β) (except : Option ι) :
    (spans items except).Pairwise fun s r => s.1 ≤ r.1 := by
  refine (List.pairwise_mergeSort (fun a b c hab hbc => ?_) (fun a b => ?_) _).imp fun {a b} h => ?_
  · simp only [Bool.not_eq_true', Bool.eq_false_iff, ne_eq, spanLt_iff] at *
    grind
  · simp only [Bool.or_eq_true, Bool.not_eq_true', Bool.eq_false_iff, ne_eq, spanLt_iff]
    grind
  · simp only [Bool.not_eq_true', Bool.eq_false_iff, ne_eq, spanLt_iff, not_or, not_lt] at h
    exact h.1

theorem collides_eq_true_iff {items : List β} {start length : Rat} {except : Option ι} :
    collides items start length except = true ↔ ∃ b ∈ others items except,
      start < Timed.start b + Timed.length b ∧ Timed.start b < start + length := by
  simp only [collides, List.any_eq_true, mem_spans]
  constructor
  · rintro ⟨_, ⟨b, hb, rfl⟩, hmeets⟩
    rw [Bool.and_eq_true, decide_eq_true_eq, decide_eq_true_eq] at hmeets
    exact ⟨b, hb, hmeets⟩
  · rintro ⟨b, hb, hmeets⟩
    refine ⟨_, ⟨b, hb, rfl⟩, ?_⟩
    rw [Bool.and_eq_true, decide_eq_true_eq, decide_eq_true_eq]
    exact hmeets

theorem collides_eq_false_iff {items : List β} {start length : Rat} {except : Option ι} :
    collides items start length except = false ↔ ∀ b ∈ others items except,
      Timed.start b + Timed.length b ≤ start ∨ start + length ≤ Timed.start b := by
  rw [Bool.eq_false_iff, ne_eq, collides_eq_true_iff]
  push Not
  exact forall₂_congr fun b _ => by rw [or_iff_not_imp_left, not_le]

omit [BEq ι] in
theorem disjoint_occupied_iff {a c : Rat} {b : β} (hlt : a < c) (hpos : 0 < Timed.length b) :
    Disjoint (Set.Ico a c) (occupied b) ↔
      Timed.start b + Timed.length b ≤ a ∨ c ≤ Timed.start b := by
  rw [occupied, Set.Ico_disjoint_Ico, min_le_iff, le_max_iff, le_max_iff]
  constructor
  · rintro ((h | h) | (h | h))
    · exact absurd h (not_le.2 hlt)
    · exact .inr h
    · exact .inl h
    · linarith
  · rintro (h | h)
    · exact .inr (.inl h)
    · exact .inl (.inr h)

/-- To meet no thing that lasts is to be at no time where one is. -/
theorem collides_eq_false_iff_freeAt {items : List β} {start length : Rat} {except : Option ι}
    (hlength : ∀ b ∈ others items except, 0 < Timed.length b) (hpos : 0 < length) :
    collides items start length except = false ↔ FreeAt (others items except) start length := by
  rw [collides_eq_false_iff]
  exact forall₂_congr fun b hb => (disjoint_occupied_iff (by linarith) (hlength b hb)).symm

/-! ## Gaps

The scan over the spans in order keeps where the latest of them has ended so far. -/

/-- What lies between spans, and where they are free from: from there or from the end of one up to
the start of one, with no span in between. -/
structure Between (spans : List (Rat × Rat)) (free a b : Rat) : Prop where
  opens : a = free ∨ ∃ s ∈ spans, s.2 = a
  late : free ≤ a
  proper : a < b
  closes : ∃ s ∈ spans, s.1 = b
  clear : ∀ s ∈ spans, s.2 ≤ a ∨ b ≤ s.1

/-- The first of some spans in order has what is free up to it before it, and all else behind it. -/
theorem between_cons {spans : List (Rat × Rat)} {s : Rat × Rat} {free a b : Rat}
    (hsort : (s :: spans).Pairwise fun r t => r.1 ≤ t.1) (hproper : ∀ r ∈ s :: spans, r.1 < r.2) :
    Between (s :: spans) free a b ↔
      (a = free ∧ b = s.1 ∧ free < s.1) ∨ Between spans (max free s.2) a b := by
  have hs := hproper s (by simp)
  have hfirst : ∀ r ∈ s :: spans, s.1 ≤ r.1 := fun r hr => by
    rcases List.mem_cons.1 hr with rfl | hr
    · exact le_rfl
    · exact (List.pairwise_cons.1 hsort).1 r hr
  constructor
  · rintro ⟨hopens, hlate, hlt, ⟨r, hr, rfl⟩, hclear⟩
    rcases hclear s (by simp) with hend | hstart
    · have hopens : a = max free s.2 ∨ ∃ r ∈ spans, r.2 = a := by grind
      have hr : r ∈ spans := (List.mem_cons.1 hr).resolve_left fun he => by
        rw [he] at hlt
        exact absurd (hlt.trans hs) (not_lt.2 hend)
      exact .inr ⟨hopens, max_le hlate hend, hlt, ⟨r, hr, rfl⟩, fun r hr => hclear r (by simp [hr])⟩
    · -- No span ends by then, so that it is free from where all of it is.
      have hlast : ∀ r ∈ s :: spans, a ≠ r.2 := fun r hr he =>
        absurd (hproper r hr) (not_lt.2 (he ▸ (hlt.le.trans hstart).trans (hfirst r hr)))
      have hfree : a = free := hopens.resolve_right fun ⟨r, hr, he⟩ => hlast r hr he.symm
      have hb : r.1 = s.1 := le_antisymm hstart (hfirst r hr)
      exact .inl ⟨hfree, hb, hfree ▸ hb ▸ hlt⟩
  · rintro (⟨rfl, rfl, hlt⟩ | ⟨hopens, hlate, hlt, ⟨r, hr, rfl⟩, hclear⟩)
    · exact ⟨.inl rfl, le_rfl, hlt, ⟨s, by simp, rfl⟩, fun r hr => .inr (hfirst r hr)⟩
    · obtain ⟨hfree, hend⟩ := max_le_iff.1 hlate
      have hopens : a = free ∨ ∃ r ∈ s :: spans, r.2 = a := by grind
      refine ⟨hopens, hfree, hlt, ⟨r, by simp [hr], rfl⟩, fun r hr => ?_⟩
      rcases List.mem_cons.1 hr with rfl | hr
      · exact .inl hend
      · exact hclear r hr

/-- The scan finds where the long enough ones of these intervals start. -/
theorem mem_gapStarts_iff {length a : Rat} :
    ∀ {spans : List (Rat × Rat)} {free : Rat}, spans.Pairwise (fun s r => s.1 ≤ r.1) →
      (∀ s ∈ spans, s.1 < s.2) → 0 < length →
      (a ∈ gapStarts length free spans ↔ ∃ b, Between spans free a b ∧ length ≤ b - a)
  | [], free, _, _, _ => by
    simp only [gapStarts, List.not_mem_nil, false_iff, not_exists, not_and]
    rintro b ⟨-, -, -, ⟨s, hs, -⟩, -⟩
    simp at hs
  | s :: spans, free, hsort, hproper, hpos => by
    have ih : a ∈ gapStarts length (max free s.2) spans ↔
        ∃ b, Between spans (max free s.2) a b ∧ length ≤ b - a :=
      mem_gapStarts_iff (List.pairwise_cons.1 hsort).2 (fun r hr => hproper r (by simp [hr])) hpos
    have hcases : a ∈ gapStarts length free (s :: spans) ↔
        (a = free ∧ length ≤ s.1 - free) ∨ a ∈ gapStarts length (max free s.2) spans := by
      rw [gapStarts, Scalar.larger_eq_max]
      split <;> simp_all
    simp only [between_cons hsort hproper, or_and_right, exists_or]
    rw [hcases, ih]
    refine or_congr_left ⟨?_, ?_⟩
    · rintro ⟨rfl, hle⟩
      exact ⟨s.1, ⟨rfl, rfl, by linarith⟩, hle⟩
    · rintro ⟨_, ⟨rfl, rfl, -⟩, hle⟩
      exact ⟨rfl, hle⟩

theorem le_of_mem_gapStarts {length a : Rat} :
    ∀ {spans : List (Rat × Rat)} {free : Rat}, a ∈ gapStarts length free spans → free ≤ a
  | [], _, h => by simp [gapStarts] at h
  | s :: spans, free, h => by
    have hlater (h : a ∈ gapStarts length (max free s.2) spans) : free ≤ a :=
      (le_max_left _ _).trans (le_of_mem_gapStarts h)
    simp only [gapStarts, Scalar.larger_eq_max] at h
    split at h
    · rcases List.mem_cons.1 h with rfl | h
      · exact le_rfl
      · exact hlater h
    · exact hlater h

theorem gapStarts_sorted (length : Rat) :
    ∀ (spans : List (Rat × Rat)) (free : Rat), (gapStarts length free spans).Pairwise (· ≤ ·)
  | [], _ => List.Pairwise.nil
  | s :: spans, free => by
    have hlater := gapStarts_sorted length spans (max free s.2)
    simp only [gapStarts, Scalar.larger_eq_max]
    split
    · exact List.pairwise_cons.2
        ⟨fun a ha => (le_max_left _ _).trans (le_of_mem_gapStarts ha), hlater⟩
    · exact hlater

/-- A thing that starts where a gap does meets none of the spans. -/
theorem clear_of_mem_gapStarts {length a : Rat} :
    ∀ {spans : List (Rat × Rat)} {free : Rat}, spans.Pairwise (fun s r => s.1 ≤ r.1) →
      a ∈ gapStarts length free spans → ∀ s ∈ spans, s.2 ≤ a ∨ a + length ≤ s.1
  | [], _, _, _, s, hs => by simp at hs
  | r :: spans, free, hsort, h, s, hs => by
    obtain ⟨hfirst, hrest⟩ := List.pairwise_cons.1 hsort
    have hlater (h : a ∈ gapStarts length (max free r.2) spans) : s.2 ≤ a ∨ a + length ≤ s.1 := by
      rcases List.mem_cons.1 hs with rfl | hs
      · exact .inl ((le_max_right _ _).trans (le_of_mem_gapStarts h))
      · exact clear_of_mem_gapStarts hrest h s hs
    simp only [gapStarts, Scalar.larger_eq_max] at h
    split at h
    · next hfits =>
      rcases List.mem_cons.1 h with rfl | h
      · have hle : r.1 ≤ s.1 := by
          rcases List.mem_cons.1 hs with rfl | hs
          · exact le_rfl
          · exact hfirst s hs
        exact .inr (by linarith)
      · exact hlater h
    · exact hlater h

/-! ## The nearest place -/

/-- Of the places nearest to a time, the earliest. -/
def IsNearest (time : Rat) (places : Set Rat) (p : Rat) : Prop :=
  p ∈ places ∧ ∀ q ∈ places, |p - time| ≤ |q - time| ∧ (|q - time| = |p - time| → p ≤ q)

theorem nearestFrom_mem (time : Rat) :
    ∀ (best least : Rat) (places : List Rat), nearestFrom time best least places ∈ best :: places
  | best, _, [] => by simp [nearestFrom]
  | best, least, q :: places => by
    simp only [nearestFrom]
    split
    · exact List.mem_cons_of_mem _ (nearestFrom_mem time q _ places)
    · rcases List.mem_cons.1 (nearestFrom_mem time best least places) with he | hmem
      · simp [he]
      · simp [hmem]

theorem mem_of_nearest {time p : Rat} {places : List Rat} (h : nearest time places = some p) :
    p ∈ places := by
  cases places with
  | nil => cases h
  | cons q places =>
    cases h
    exact nearestFrom_mem time q _ places

/-- In order, what is found first among the nearest is the earliest. -/
theorem nearestFrom_least (time : Rat) :
    ∀ {best : Rat} {places : List Rat}, (best :: places).Pairwise (· ≤ ·) →
      let p := nearestFrom time best (Scalar.distance best time) places
      ∀ q ∈ best :: places, |p - time| ≤ |q - time| ∧ (|q - time| = |p - time| → p ≤ q)
  | best, [], _ => by simp [nearestFrom]
  | best, q :: places, h => by
    obtain ⟨hbest, hrest⟩ := List.pairwise_cons.1 h
    simp only [nearestFrom, Scalar.distance_eq_abs]
    split
    · next hlt =>
      have hall := nearestFrom_least time hrest
      rw [Scalar.distance_eq_abs] at hall
      intro r hr
      rcases List.mem_cons.1 hr with rfl | hr
      · have hless := (hall q List.mem_cons_self).1.trans_lt hlt
        exact ⟨hless.le, fun he => absurd he hless.ne'⟩
      · exact hall r hr
    · next hle =>
      have hskip : (best :: places).Pairwise (· ≤ ·) := h.sublist (by simp)
      have hall := nearestFrom_least time hskip
      rw [Scalar.distance_eq_abs] at hall
      have hfirst := hall best List.mem_cons_self
      intro r hr
      rcases List.mem_cons.1 hr with rfl | hr
      · exact hfirst
      rcases List.mem_cons.1 hr with rfl | hr
      · -- What is as near as the one found is no nearer than the best one, which is earlier.
        have hless := hfirst.1.trans (not_lt.1 hle)
        refine ⟨hless, fun he => (hfirst.2 ?_).trans (hbest r List.mem_cons_self)⟩
        exact le_antisymm ((not_lt.1 hle).trans he.le) hfirst.1
      · exact hall r (List.mem_cons_of_mem _ hr)

theorem nearest_isNearest {time p : Rat} {places : List Rat} (hsort : places.Pairwise (· ≤ ·))
    (h : nearest time places = some p) : IsNearest time {q | q ∈ places} p := by
  refine ⟨mem_of_nearest h, ?_⟩
  cases places with
  | nil => cases h
  | cons q places =>
    cases h
    exact nearestFrom_least time hsort

/-! ## The place that is found -/

/-- Where things end. -/
def finishes (items : List β) : Set Rat := {e | ∃ b ∈ items, Timed.start b + Timed.length b = e}

/-- A place that is taken is exchanged for the first of the nearest places among the starts of the
gaps and the last end. -/
theorem freePosition_of_collides {items : List β} {time length : Rat} {except : Option ι}
    (h : collides items time length except = true) :
    ∃ last p, IsGreatest (finishes (others items except)) last ∧
      freePosition items time length except = max 0 p ∧
      nearest time (gapStarts length 0 (spans items except) ++ [last]) = some p := by
  obtain ⟨b, hb, -⟩ := collides_eq_true_iff.1 h
  have hmem := List.mem_map_of_mem (f := Prod.snd) (mem_spans.2 ⟨b, hb, rfl⟩)
  obtain ⟨last, hlast⟩ := Option.isSome_iff_exists.1 (List.isSome_max?_of_mem hmem)
  obtain ⟨hlast', hle⟩ := List.max?_eq_some_iff.1 hlast
  have hgreatest : IsGreatest (finishes (others items except)) last := by
    constructor
    · obtain ⟨s, hs, rfl⟩ := List.mem_map.1 hlast'
      obtain ⟨c, hc, rfl⟩ := mem_spans.1 hs
      exact ⟨c, hc, rfl⟩
    · rintro _ ⟨c, hc, rfl⟩
      exact hle _ (List.mem_map_of_mem (f := Prod.snd) (mem_spans.2 ⟨c, hc, rfl⟩))
  have hsome : (nearest time (gapStarts length 0 (spans items except) ++ [last])).isSome = true := by
    cases gapStarts length 0 (spans items except) <;> rfl
  obtain ⟨p, hp⟩ := Option.isSome_iff_exists.1 hsome
  refine ⟨last, p, hgreatest, ?_, hp⟩
  simp only [freePosition, h, Scalar.greatest, Scalar.greatest?_eq_max?, hlast, Option.getD_some,
    Scalar.zero_eq, hp, Scalar.larger_eq_max, Bool.not_true, Bool.false_eq_true, if_false]

/-- A thing meets nothing at the start of a gap that is long enough, nor behind all things. -/
theorem not_collides_of_candidate {items : List β} {length last p : Rat} {except : Option ι}
    (hlast : IsGreatest (finishes (others items except)) last)
    (hp : p ∈ gapStarts length 0 (spans items except) ++ [last]) :
    collides items (max 0 p) length except = false := by
  rw [collides_eq_false_iff]
  intro b hb
  rcases List.mem_append.1 hp with hgap | hend
  · rw [max_eq_right (le_of_mem_gapStarts hgap)]
    exact clear_of_mem_gapStarts (spans_sorted items except) hgap _ (mem_spans.2 ⟨b, hb, rfl⟩)
  · rw [List.mem_singleton.1 hend]
    exact .inl ((hlast.2 ⟨b, hb, rfl⟩).trans (le_max_right _ _))

/-- A place that is taken is exchanged for a free one, which is not before zero. -/
theorem not_collides_freePosition {items : List β} {time length : Rat} {except : Option ι}
    (h : collides items time length except = true) :
    0 ≤ freePosition items time length except ∧
      collides items (freePosition items time length except) length except = false := by
  obtain ⟨last, p, hlast, hplace, hp⟩ := freePosition_of_collides h
  rw [hplace]
  exact ⟨le_max_left _ _, not_collides_of_candidate hlast (mem_of_nearest hp)⟩

/-- **The place that is found meets nothing**, and is not before zero, unless nothing is met at the time
asked for, which is before zero, and something is at zero. -/
theorem collides_freePosition_iff (items : List β) (time length : Rat) (except : Option ι) :
    0 ≤ freePosition items time length except ∧
      (collides items (freePosition items time length except) length except = true ↔
        time < 0 ∧ collides items time length except = false ∧
          collides items 0 length except = true) := by
  cases h : collides items time length except with
  | false =>
    have hplace : freePosition items time length except = max 0 time := by
      simp [freePosition, h]
    rw [hplace]
    refine ⟨le_max_left _ _, ?_⟩
    rcases lt_or_ge time 0 with hneg | hpos
    · simp [max_eq_left hneg.le, hneg]
    · simp [max_eq_right hpos, h, not_lt.2 hpos]
  | true =>
    obtain ⟨hnonneg, hfree⟩ := not_collides_freePosition h
    exact ⟨hnonneg, by simp [hfree]⟩

/-- A caption asked to start before zero, where nothing is, is placed at zero, where it meets another. -/
theorem freePosition_early :
    let items := [caption "a" 0 3]
    (∀ b ∈ items, 0 ≤ Timed.start b ∧ 0 < Timed.length b) ∧
      freePosition items (-5) 2 none = 0 ∧
      collides items (freePosition items (-5) 2 none) 2 none = true := by
  have hplace : freePosition [caption "a" 0 3] (-5) 2 none = 0 := by cbv
  refine ⟨by decide +kernel, hplace, ?_⟩
  rw [hplace]
  cbv

/-! ## Gaps between things -/

/-- An interval from zero on, up to a last time, in which nothing is there. -/
structure Vacant (items : List β) (last a b : Rat) : Prop where
  start : 0 ≤ a
  proper : a < b
  finish : b ≤ last
  free : ∀ c ∈ items, Disjoint (Set.Ico a b) (occupied c)

/-- A vacant interval that is no part of a longer one. -/
structure IsGap (items : List β) (last a b : Rat) : Prop extends Vacant items last a b where
  whole : ∀ c d, Vacant items last c d → c ≤ a → b ≤ d → c = a ∧ d = b

section Gaps

variable {items : List β} {except : Option ι} {last a b : Rat}

omit [BEq ι] in
theorem vacant_iff (hlength : ∀ c ∈ items, 0 < Timed.length c) : Vacant items last a b ↔
    0 ≤ a ∧ a < b ∧ b ≤ last ∧
      ∀ c ∈ items, Timed.start c + Timed.length c ≤ a ∨ b ≤ Timed.start c := by
  constructor
  · rintro ⟨hstart, hlt, hlast, hfree⟩
    exact ⟨hstart, hlt, hlast, fun c hc => (disjoint_occupied_iff hlt (hlength c hc)).1 (hfree c hc)⟩
  · rintro ⟨hstart, hlt, hlast, hclear⟩
    exact ⟨hstart, hlt, hlast, fun c hc => (disjoint_occupied_iff hlt (hlength c hc)).2 (hclear c hc)⟩

/-- What is clear of spans, up to a start of one of them, lies between spans. -/
theorem exists_between {spans : List (Rat × Rat)} (hbehind : ∃ s ∈ spans, b ≤ s.1) (hstart : 0 ≤ a)
    (hlt : a < b) (hclear : ∀ s ∈ spans, s.2 ≤ a ∨ b ≤ s.1) :
    ∃ c d, c ≤ a ∧ b ≤ d ∧ Between spans 0 c d := by
  -- It reaches from the latest end before it up to the earliest start behind it.
  obtain ⟨c, hc, hmax⟩ := ((0 :: spans.map (·.2)).toFinset.filter (· ≤ a)).exists_max_image id
    ⟨0, by simp [hstart]⟩
  obtain ⟨s, hs, hbehind⟩ := hbehind
  obtain ⟨d, hd, hmin⟩ := ((spans.map (·.1)).toFinset.filter (b ≤ ·)).exists_min_image id
    ⟨s.1, by simpa [hbehind] using ⟨_, hs⟩⟩
  simp only [Finset.mem_filter, List.mem_toFinset, List.mem_cons, List.mem_map, id] at hc hd hmax hmin
  refine ⟨c, d, hc.2, hd.2, hc.1, hmax 0 ⟨.inl rfl, hstart⟩, (hc.2.trans_lt hlt).trans_le hd.2,
    hd.1, fun r hr => ?_⟩
  rcases hclear r hr with hend | hbegin
  · exact .inl (hmax r.2 ⟨.inr ⟨r, hr, rfl⟩, hend⟩)
  · exact .inr (hmin r.1 ⟨⟨r, hr, rfl⟩, hbegin⟩)

omit [BEq ι] in
/-- The gaps between things are what lies between their spans, whether they are looked for up to the
last start or up to the end of a thing. -/
theorem isGap_iff_between {spans : List (Rat × Rat)} (hlength : ∀ c ∈ items, 0 < Timed.length c)
    (hmem : ∀ {s}, s ∈ spans ↔ ∃ c ∈ items, (Timed.start c, Timed.start c + Timed.length c) = s)
    (hstarts : ∀ c ∈ items, Timed.start c ≤ last)
    (hlast : ∃ c ∈ items, last ≤ Timed.start c ∨ last = Timed.start c + Timed.length c) :
    IsGap items last a b ↔ Between spans 0 a b := by
  have hspans : ∀ {c d : Rat}, (∀ s ∈ spans, s.2 ≤ c ∨ d ≤ s.1) ↔
      ∀ x ∈ items, Timed.start x + Timed.length x ≤ c ∨ d ≤ Timed.start x := by
    intro c d
    simp only [hmem]
    exact ⟨fun h x hx => h _ ⟨x, hx, rfl⟩, by rintro h _ ⟨x, hx, rfl⟩; exact h x hx⟩
  have hproper : ∀ s ∈ spans, s.1 < s.2 ∧ s.1 ≤ last := fun s hs => by
    obtain ⟨x, hx, rfl⟩ := hmem.1 hs
    exact ⟨by linarith [hlength x hx], hstarts x hx⟩
  have hvacant {c d : Rat} (h : Between spans 0 c d) : Vacant items last c d := by
    obtain ⟨r, hr, rfl⟩ := h.closes
    exact (vacant_iff hlength).2 ⟨h.late, h.proper, (hproper r hr).2, hspans.1 h.clear⟩
  constructor
  · intro h
    obtain ⟨hstart, hlt, hle, hclear⟩ := (vacant_iff hlength).1 h.toVacant
    have hbehind : ∃ s ∈ spans, b ≤ s.1 := by
      obtain ⟨x, hx, hor⟩ := hlast
      refine ⟨_, hmem.2 ⟨x, hx, rfl⟩, ?_⟩
      rcases hor with hbegin | hend
      · exact hle.trans hbegin
      · exact (hclear x hx).resolve_left fun hbefore => by linarith
    obtain ⟨c, d, hca, hbd, hbetween⟩ := exists_between hbehind hstart hlt (hspans.2 hclear)
    obtain ⟨rfl, rfl⟩ := h.whole c d (hvacant hbetween) hca hbd
    exact hbetween
  · intro h
    refine ⟨hvacant h, fun c d hcd hca hbd => ?_⟩
    obtain ⟨hstart, hlt, -, hclear⟩ := (vacant_iff hlength).1 hcd
    have hclear := hspans.2 hclear
    constructor
    · -- Where it opens, it is zero or a span is just over.
      refine le_antisymm hca (not_lt.1 fun hless => ?_)
      rcases h.opens with rfl | ⟨r, hr, rfl⟩
      · linarith
      · have := (hproper r hr).1
        have := h.proper
        rcases hclear r hr with hend | hbegin <;> linarith
    · refine le_antisymm (not_lt.1 fun hless => ?_) hbd
      obtain ⟨r, hr, rfl⟩ := h.closes
      have := (hproper r hr).1
      have := h.proper
      rcases hclear r hr with hend | hbegin <;> linarith

theorem isGap_iff (hlength : ∀ c ∈ others items except, 0 < Timed.length c)
    (hlast : IsGreatest (finishes (others items except)) last) :
    IsGap (others items except) last a b ↔ Between (spans items except) 0 a b := by
  refine isGap_iff_between hlength mem_spans (fun c hc => ?_) ?_
  · linarith [hlength c hc, hlast.2 ⟨c, hc, rfl⟩]
  · obtain ⟨c, hc, he⟩ := hlast.1
    exact ⟨c, hc, .inr he.symm⟩

end Gaps

/-- **The place that is found for a place that is taken** is the nearest to it among the starts of the
gaps that are long enough and the last end; of two that are as near it is the earlier one. -/
theorem freePosition_isNearest {items : List β} {time length : Rat} {except : Option ι}
    (hstart : ∀ b ∈ items, 0 ≤ Timed.start b) (hlength : ∀ b ∈ items, 0 < Timed.length b)
    (hpos : 0 < length) (hmeets : collides items time length except = true) :
    ∃ last, IsGreatest (finishes (others items except)) last ∧
      IsNearest time ({a | ∃ b, IsGap (others items except) last a b ∧ length ≤ b - a} ∪ {last})
        (freePosition items time length except) := by
  have hothers : ∀ b ∈ others items except, 0 ≤ Timed.start b ∧ 0 < Timed.length b := fun b hb =>
    have hb := List.mem_of_mem_filter hb
    ⟨hstart b hb, hlength b hb⟩
  have hproper : ∀ s ∈ spans items except, s.1 < s.2 := fun s hs => by
    obtain ⟨b, hb, rfl⟩ := mem_spans.1 hs
    linarith [(hothers b hb).2]
  obtain ⟨last, p, hlast, hplace, hp⟩ := freePosition_of_collides hmeets
  have hgap (a : Rat) : a ∈ gapStarts length 0 (spans items except) ↔
      ∃ b, IsGap (others items except) last a b ∧ length ≤ b - a := by
    simp only [mem_gapStarts_iff (spans_sorted items except) hproper hpos,
      isGap_iff (fun c hc => (hothers c hc).2) hlast]
  have hplaces : {a | ∃ b, IsGap (others items except) last a b ∧ length ≤ b - a} ∪ {last} =
      {q | q ∈ gapStarts length 0 (spans items except) ++ [last]} := by
    ext a
    simp [hgap, or_comm]
  have hsort : (gapStarts length 0 (spans items except) ++ [last]).Pairwise (· ≤ ·) := by
    refine List.pairwise_append.2 ⟨gapStarts_sorted _ _ _, List.pairwise_singleton .., fun a ha e he => ?_⟩
    obtain ⟨b, hab, -⟩ := (hgap a).1 ha
    rw [List.mem_singleton.1 he]
    exact hab.proper.le.trans hab.finish
  have hnonneg : 0 ≤ p := by
    rcases List.mem_append.1 (mem_of_nearest hp) with hgap | hend
    · exact le_of_mem_gapStarts hgap
    · obtain ⟨b, hb, he⟩ := hlast.1
      rw [List.mem_singleton.1 hend, ← he]
      linarith [(hothers b hb).1, (hothers b hb).2]
  refine ⟨last, hlast, ?_⟩
  rw [hplaces, hplace, max_eq_right hnonneg]
  exact nearest_isNearest hsort hp

/-- Captions out of order, one of them within another. -/
def nested : List (Overlay Rat) :=
  [caption "d" 0 1, caption "c" 7 3, caption "a" 1 2, caption "b" (3 / 2) 1]

/-- Two gaps are as near to the time that is asked for, and the place is in the first one. -/
theorem nested_isNearest :
    (∀ b ∈ nested, 0 ≤ Timed.start b) ∧ (∀ b ∈ nested, 0 < Timed.length b) ∧ (0 : Rat) < 1 ∧
      collides nested (3 / 2) 1 (some "d") = true ∧
      gapStarts 1 0 (spans nested (some "d")) = [0, 3] ∧
      freePosition nested (3 / 2) 1 (some "d") = 0 ∧
      ∃ last, IsGreatest (finishes (others nested (some "d"))) last ∧
        IsNearest (3 / 2) ({a | ∃ b, IsGap (others nested (some "d")) last a b ∧ 1 ≤ b - a} ∪ {last})
          0 := by
  have hstart : ∀ b ∈ nested, 0 ≤ Timed.start b := by decide +kernel
  have hlength : ∀ b ∈ nested, 0 < Timed.length b := by decide +kernel
  have hmeets : collides nested (3 / 2) 1 (some "d") = true := by cbv
  have hplace : freePosition nested (3 / 2) 1 (some "d") = 0 := by cbv
  have hnearest := freePosition_isNearest hstart hlength one_pos hmeets
  rw [hplace] at hnearest
  exact ⟨hstart, hlength, one_pos, hmeets, by cbv, hplace, hnearest⟩

/-! ## A thing put where none is -/

omit [BEq ι] in
/-- Things of different starts are sorted alike however they are arranged. -/
theorem sortByStart_eq_of_perm {items sorted : List β} (hperm : items.Perm sorted)
    (h : sorted.Pairwise fun a b => Timed.start a < Timed.start b) : sortByStart items = sorted := by
  have hsame := (sortByStart_perm items).trans hperm
  have hstarts : (sorted.map Timed.start).Nodup := List.pairwise_map.2 (h.imp fun hlt => hlt.ne)
  exact hsame.eq_of_pairwise
    (fun a b ha hb hab hba => List.inj_on_of_nodup_map hstarts (hsame.mem_iff.1 ha) hb
      (le_antisymm hab hba))
    (sortByStart_sorted items) (h.imp fun hlt => hlt.le)

omit [BEq ι] in
/-- A thing put among spaced ones where none of them is stays there, and so do they. -/
theorem resolve_of_freeAt {items kept : List β} {new : β} (hperm : items.Perm (new :: kept))
    (hkept : Spaced kept) (hstart : ∀ b ∈ new :: kept, 0 ≤ Timed.start b)
    (hlength : ∀ b ∈ new :: kept, overlapTolerance < Timed.length b)
    (hfree : FreeAt kept (Timed.start new) (Timed.length new)) :
    ∃ pre post, kept = pre ++ post ∧ resolve items = pre ++ new :: post := by
  have htol : (0 : Rat) < overlapTolerance := by norm_num [overlapTolerance_eq]
  have hnew := htol.trans (hlength new (by simp))
  let pre := kept.filter fun b => decide (Timed.start b ≤ Timed.start new)
  let post := kept.filter fun b => decide (Timed.start new < Timed.start b)
  have hsplit : pre ++ post = kept := filter_append_of_sorted (hkept.imp fun hab => hab.1) _
  have hclear : ∀ b ∈ kept, Timed.start b + Timed.length b ≤ Timed.start new ∨
      Timed.start new + Timed.length new ≤ Timed.start b := fun b hb =>
    (disjoint_occupied_iff (by linarith) (htol.trans (hlength b (by simp [hb])))).1 (hfree b hb)
  have hpre : ∀ b ∈ pre, Follows b new := fun b hb => by
    obtain ⟨hb, hle⟩ := List.mem_filter.1 hb
    have hle : Timed.start b ≤ Timed.start new := by simpa using hle
    have hend := (hclear b hb).resolve_right fun hend => by linarith
    exact ⟨hle, by linarith⟩
  have hpost : ∀ b ∈ post, Follows new b := fun b hb => by
    obtain ⟨hb, hlt⟩ := List.mem_filter.1 hb
    have hlt : Timed.start new < Timed.start b := by simpa using hlt
    have hbegin := (hclear b hb).resolve_left fun hend => by
      linarith [hlength b (List.mem_cons_of_mem _ hb)]
    exact ⟨hlt.le, by linarith⟩
  have harranged : (pre ++ new :: post).Perm (new :: kept) := hsplit ▸ List.perm_middle
  have hspaced : Spaced (pre ++ new :: post) := by
    obtain ⟨hbefore, hbehind, hcross⟩ := List.pairwise_append.1 (hsplit.symm ▸ hkept)
    refine List.pairwise_append.2 ⟨hbefore, List.pairwise_cons.2 ⟨hpost, hbehind⟩, ?_⟩
    intro a ha b hb
    rcases List.mem_cons.1 hb with rfl | hb
    · exact hpre a ha
    · exact hcross a ha b hb
  have hlater : (pre ++ new :: post).Pairwise fun a b => Timed.start a < Timed.start b :=
    hspaced.imp_of_mem fun ha _ hab => by
      linarith [hab.2, hlength _ (harranged.mem_iff.1 ha)]
  refine ⟨pre, post, hsplit.symm, ?_⟩
  rw [resolve_eq, sortByStart_eq_of_perm (hperm.trans harranged.symm) hlater]
  exact pushRight_of_spaced hspaced fun b hb => by
    linarith [hstart b (harranged.mem_iff.1 hb)]

end Montage
