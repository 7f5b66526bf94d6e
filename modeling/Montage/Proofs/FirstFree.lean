/-
The first free place from a time on, in exact arithmetic.

The search for it goes from where it is to the latest end of the overlays that are met there, until
none is met (`Search`). Every round goes past the end of one more overlay, so that the search is over
after no more rounds than there are overlays (`exists_search`), and `placeAfter` gives where it ends
(`Search.placeAfter_eq`). A round passes no free place: from where it starts up to the latest end, the
overlay with that end is met. So the search ends at the first free place (`Search.isLeast`).
-/
import Montage.Proofs.FreePlaces

namespace Montage

/-- The overlays that a span of some length meets. -/
def met (siblings : List (Overlay Rat)) (start length : Rat) : List (Overlay Rat) :=
  siblings.filter fun o => decide (start < o.finish) && decide (o.start < start + length)

/-- The search from a start: so many times what is met is passed, and then nothing is met. -/
inductive Search (siblings : List (Overlay Rat)) (length : Rat) : Nat → Rat → Rat → Prop where
  | free {start : Rat} : collides siblings start length none = false →
      Search siblings length 0 start start
  | passed {k : Nat} {start latest place : Rat} : collides siblings start length none = true →
      Scalar.greatest? ((met siblings start length).map Overlay.finish) = some latest →
      Search siblings length k latest place → Search siblings length (k + 1) start place

variable {siblings : List (Overlay Rat)} {start length place : Rat} {k : Nat}

theorem mem_met {o : Overlay Rat} :
    o ∈ met siblings start length ↔ o ∈ siblings ∧ start < o.finish ∧ o.start < start + length := by
  rw [met, List.mem_filter, Bool.and_eq_true, decide_eq_true_eq, decide_eq_true_eq]

/-- What is met is what is collided with. -/
theorem collides_iff_met :
    collides siblings start length none = true ↔ ∃ o, o ∈ met siblings start length := by
  simp only [collides_eq_true_iff, others_none, mem_met]
  rfl

/-- Where something is met, one of the overlays met ends last. -/
theorem exists_latest (h : collides siblings start length none = true) :
    ∃ o ∈ met siblings start length,
      Scalar.greatest? ((met siblings start length).map Overlay.finish) = some o.finish := by
  obtain ⟨o, ho⟩ := collides_iff_met.1 h
  obtain ⟨latest, hlatest⟩ := Option.isSome_iff_exists.1
    (List.isSome_max?_of_mem (List.mem_map_of_mem (f := Overlay.finish) ho))
  obtain ⟨p, hp, rfl⟩ := List.mem_map.1 (List.max?_eq_some_iff.1 hlatest).1
  exact ⟨p, hp, by rw [Scalar.greatest?_eq_max?, hlatest]⟩

/-- Fewer overlays end after the end of one of those that end after a time. -/
theorem countP_finish_lt {o : Overlay Rat} (ho : o ∈ siblings) (hlt : start < o.finish) :
    siblings.countP (fun p => decide (o.finish < p.finish)) <
      siblings.countP fun p => decide (start < p.finish) := by
  have hsub : (siblings.filter fun p => decide (o.finish < p.finish)).Sublist
      (siblings.filter fun p => decide (start < p.finish)) :=
    List.monotone_filter_right siblings fun p hp => by
      simp only [decide_eq_true_eq] at hp ⊢
      exact hlt.trans hp
  simp only [List.countP_eq_length_filter]
  refine lt_of_le_of_ne hsub.length_le fun he => ?_
  have hmem : o ∈ siblings.filter fun p => decide (start < p.finish) :=
    List.mem_filter.2 ⟨ho, by simpa using hlt⟩
  rw [← hsub.eq_of_length he] at hmem
  simp at hmem

/-- The search is over after no more rounds than there are overlays that end later. -/
theorem exists_search (length : Rat) :
    ∀ (n : Nat) {start : Rat}, siblings.countP (fun o => decide (start < o.finish)) ≤ n →
      ∃ k ≤ n, ∃ place, Search siblings length k start place
  | n, start, hle => by
    cases h : collides siblings start length none with
    | false => exact ⟨0, Nat.zero_le n, start, .free h⟩
    | true =>
      obtain ⟨o, ho, hlatest⟩ := exists_latest h
      obtain ⟨ho, hend, -⟩ := mem_met.1 ho
      have hfewer := (countP_finish_lt ho hend).trans_le hle
      cases n with
      | zero => exact absurd hfewer (Nat.not_lt_zero _)
      | succ n =>
        obtain ⟨k, hk, place, hsearch⟩ := exists_search length n (Nat.le_of_lt_succ hfewer)
        exact ⟨k + 1, Nat.succ_le_succ hk, place, .passed h hlatest hsearch⟩

namespace Search

/-- Any supply of rounds that is large enough leads to where the search ends. -/
theorem placeAfter_eq (h : Search siblings length k start place) :
    ∀ {fuel : Nat}, k < fuel → placeAfter siblings length fuel start = place := by
  induction h with
  | free hfree =>
    intro fuel hlt
    obtain ⟨fuel, rfl⟩ := Nat.exists_eq_succ_of_ne_zero (Nat.ne_zero_of_lt hlt)
    rw [placeAfter, if_neg (by rw [hfree]; exact Bool.false_ne_true)]
  | passed hmeets hlatest _ ih =>
    intro fuel hlt
    obtain ⟨fuel, rfl⟩ := Nat.exists_eq_succ_of_ne_zero (Nat.ne_zero_of_lt hlt)
    rw [met] at hlatest
    rw [placeAfter, if_pos hmeets]
    simp only [hlatest, Option.getD_some]
    exact ih (Nat.lt_of_succ_lt_succ hlt)

/-- The search ends at the first place at which nothing is met. -/
theorem isLeast (h : Search siblings length k start place) :
    IsLeast {s | start ≤ s ∧ collides siblings s length none = false} place := by
  induction h with
  | free hfree => exact ⟨⟨le_rfl, hfree⟩, fun s hs => hs.1⟩
  | @passed k start latest place hmeets hlatest _ ih =>
    obtain ⟨o, ho, he⟩ := exists_latest hmeets
    obtain rfl : latest = o.finish := Option.some.inj (hlatest.symm.trans he)
    obtain ⟨ho, hend, hbegin⟩ := mem_met.1 ho
    obtain ⟨⟨hle, hfree⟩, hleast⟩ := ih
    refine ⟨⟨hend.le.trans hle, hfree⟩, fun s hs => ?_⟩
    rcases le_or_gt o.finish s with hlate | hearly
    · exact hleast ⟨hlate, hs.2⟩
    · -- It is still met at any place before its end.
      have hmeets : collides siblings s length none = true :=
        collides_iff_met.2 ⟨o, mem_met.2 ⟨ho, hearly, by linarith [hs.1]⟩⟩
      rw [hs.2] at hmeets
      cases hmeets

end Search

/-- As many rounds as there are siblings, and one more to see that none is met, are enough. -/
theorem search_placeAfter (siblings : List (Overlay Rat)) (length start : Rat) :
    ∃ k ≤ siblings.length,
      Search siblings length k start (placeAfter siblings length (siblings.length + 1) start) := by
  obtain ⟨k, hk, place, hsearch⟩ := exists_search length siblings.length List.countP_le_length
  exact ⟨k, hk, (hsearch.placeAfter_eq (Nat.lt_succ_of_le hk)).symm ▸ hsearch⟩

end Montage
