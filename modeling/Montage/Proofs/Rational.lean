/-
The number class over the rationals: its operations are the ordinary ones, and
the constants of editing and layout are the fractions that they are written as.
-/
import Mathlib.Algebra.Order.Ring.Rat
import Mathlib.Tactic.Linarith
import Mathlib.Tactic.NormNum
import Mathlib.Tactic.Ring
import Montage.Edit.Command
import Montage.Layout.Grouping

namespace Montage

namespace Scalar

@[simp] theorem larger_eq_max (a b : Rat) : larger a b = max a b := by
  unfold larger
  split
  · next h => exact (max_eq_right (le_of_lt h)).symm
  · next h => exact (max_eq_left (not_lt.1 h)).symm

@[simp] theorem smaller_eq_min (a b : Rat) : smaller a b = min a b := by
  unfold smaller
  split
  · next h => exact (min_eq_right (le_of_lt h)).symm
  · next h => exact (min_eq_left (not_lt.1 h)).symm

@[simp] theorem plain_eq (x : Rat) : plain x = x := rfl

@[simp] theorem zero_eq : (0.0 : Rat) = 0 := by norm_num

@[simp] theorem sum_eq (xs : List Rat) : sum xs = xs.sum := by
  rw [List.sum_eq_foldl, ← zero_eq]
  rfl

end Scalar

theorem overlapTolerance_eq : (overlapTolerance : Rat) = 1 / 1000 := by
  norm_num [overlapTolerance]

theorem gapTolerance_eq : (gapTolerance : Rat) = 1 / 100 := by
  norm_num [gapTolerance]

theorem minClipDuration_eq : (minClipDuration : Rat) = 1 / 10 := by
  norm_num [minClipDuration]

theorem minTransitionDuration_eq : (minTransitionDuration : Rat) = 1 / 10 := by
  norm_num [minTransitionDuration]

theorem maxOverlapShare_eq : (maxOverlapShare : Rat) = 9 / 10 := by
  norm_num [maxOverlapShare]

end Montage
