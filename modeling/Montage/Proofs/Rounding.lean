/-
Rounding to whole numbers, a half to the even one.

What a rational is rounded to is the whole number that no other is nearer to it than, and the even
one where another is as near (`roundsHalfEven_iff`).
-/
import Mathlib.Algebra.Order.Ring.Rat
import Mathlib.Algebra.Group.Int.Even
import Mathlib.Data.Rat.Floor
import Mathlib.Tactic.Linarith
import Mathlib.Tactic.NormNum
import Montage.Number.Exact

namespace Montage

theorem halfEven_cases (q : Rat) : halfEven q = q.floor ∨ halfEven q = q.floor + 1 := by
  unfold halfEven
  dsimp only
  split
  · exact .inl rfl
  split
  · exact .inr rfl
  split
  · exact .inl rfl
  · exact .inr rfl

/-- What is rounded to an even number or a greater one: all from a half below it on. -/
theorem le_halfEven_iff {n : Int} (hn : n % 2 = 0) (q : Rat) :
    n ≤ halfEven q ↔ (n : Rat) - 1 / 2 ≤ q := by
  have hle : (q.floor : Rat) ≤ q := q.floor_le
  have hlt : q < (q.floor : Rat) + 1 := by simpa using q.lt_floor_add_one
  have hcases := halfEven_cases q
  rcases lt_trichotomy q.floor (n - 1) with hbelow | hnext | habove
  · have hfloor : (q.floor : Rat) ≤ n - 2 := by exact_mod_cast (by omega : q.floor ≤ n - 2)
    exact iff_of_false (by omega) (by linarith)
  · have hfloor : (q.floor : Rat) = n - 1 := by exact_mod_cast hnext
    unfold halfEven
    dsimp only
    split
    · exact iff_of_false (by omega) (by linarith)
    split
    · exact iff_of_true (by omega) (by linarith)
    · rw [if_neg (by omega)]
      exact iff_of_true (by omega) (by linarith)
  · have hfloor : (n : Rat) ≤ q.floor := by exact_mod_cast (by omega : n ≤ q.floor)
    exact iff_of_true (by omega) (by linarith)

theorem halfEven_le {n : Int} {q : Rat} (h : q < n) : halfEven q ≤ n := by
  have hfloor : q.floor < n := by exact_mod_cast q.floor_le.trans_lt h
  have hcases := halfEven_cases q
  omega

theorem abs_halfEven_sub_le (q : Rat) : |(halfEven q : Rat) - q| ≤ 1 / 2 := by
  have hle : (q.floor : Rat) ≤ q := q.floor_le
  have hlt : q < (q.floor : Rat) + 1 := by simpa using q.lt_floor_add_one
  unfold halfEven
  dsimp only
  rw [abs_le]
  split
  · constructor <;> linarith
  · split
    · push_cast
      constructor <;> linarith
    · split
      · constructor <;> linarith
      · push_cast
        constructor <;> linarith

theorem even_halfEven {q : Rat} (h : 1 / 2 ≤ |(halfEven q : Rat) - q|) : Even (halfEven q) := by
  have hle : (q.floor : Rat) ≤ q := q.floor_le
  have hlt : q < (q.floor : Rat) + 1 := by simpa using q.lt_floor_add_one
  rw [le_abs] at h
  unfold halfEven at h ⊢
  dsimp only at h ⊢
  split_ifs at h ⊢ with hbelow habove heven
  · exfalso
    rcases h with h | h <;> linarith
  · exfalso
    push_cast at h
    rcases h with h | h <;> linarith
  · exact Int.even_iff.2 heven
  · exact Int.even_iff.2 (by omega)

/-- A whole number that a rational is rounded to. -/
structure RoundsHalfEven (q : Rat) (n : Int) : Prop where
  nearest (m : Int) : |(n : Rat) - q| ≤ |(m : Rat) - q|
  even (m : Int) : m ≠ n → |(m : Rat) - q| = |(n : Rat) - q| → Even n

theorem roundsHalfEven_halfEven (q : Rat) : RoundsHalfEven q (halfEven q) := by
  have hnear := abs_halfEven_sub_le q
  -- Any other number is at least as far from the one that is chosen as a whole unit.
  have hfar (m : Int) (hm : m ≠ halfEven q) : 1 ≤ |(m : Rat) - q| + |(halfEven q : Rat) - q| := by
    have hunit : (1 : Rat) ≤ |(m : Rat) - halfEven q| := by
      exact_mod_cast Int.one_le_abs (sub_ne_zero.2 hm)
    rw [abs_sub_comm (halfEven q : Rat) q]
    exact hunit.trans (abs_sub_le _ _ _)
  constructor
  case nearest =>
    intro m
    by_cases hm : m = halfEven q
    · rw [hm]
    · linarith [hfar m hm]
  case even =>
    intro m hm heq
    exact even_halfEven (by linarith [hfar m hm])

theorem RoundsHalfEven.unique {q : Rat} {m n : Int} (hm : RoundsHalfEven q m) (hn : RoundsHalfEven q n) :
    m = n := by
  by_contra hne
  have hdist : |(m : Rat) - q| = |(n : Rat) - q| := le_antisymm (hm.nearest n) (hn.nearest m)
  obtain ⟨k, hk⟩ : Even (m + n) :=
    (hm.even n (Ne.symm hne) hdist.symm).add (hn.even m hne hdist)
  have hsum : (m : Rat) + n = k + k := by exact_mod_cast hk
  rcases abs_eq_abs.1 hdist with hsame | hmirror
  · exact hne (by exact_mod_cast sub_left_injective hsame)
  · -- The number in the middle between the two is the rational itself.
    have hmid : (k : Rat) - q = 0 := by linarith
    have hzero := hm.nearest k
    rw [hmid, abs_zero, abs_nonpos_iff] at hzero
    exact hne (by exact_mod_cast (by linarith : (m : Rat) = n))

theorem roundsHalfEven_iff {q : Rat} {n : Int} : RoundsHalfEven q n ↔ n = halfEven q :=
  ⟨fun h => h.unique (roundsHalfEven_halfEven q), fun h => h ▸ roundsHalfEven_halfEven q⟩

end Montage
