/-
Arithmetic in which nothing is rounded.

What is written over a number format can be reasoned about on the real numbers if the format's own
are among them, and its sums, differences, order and decimals are theirs (`Unrounded`). The
rationals are such a format.
-/
import Mathlib.Data.Real.Basic
import Mathlib.Tactic.NormNum
import Montage.Timeline.Clip

namespace Montage

/-- A number format in which nothing is rounded. -/
class Unrounded (α : Type) [Scalar α] where
  /-- The real number that a number is. -/
  real : α → ℝ
  real_injective : Function.Injective real
  real_add (a b : α) : real (a + b) = real a + real b
  real_sub (a b : α) : real (a - b) = real a - real b
  real_lt (a b : α) : real a < real b ↔ a < b
  real_le (a b : α) : real a ≤ real b ↔ a ≤ b
  real_ofScientific (m : Nat) (s : Bool) (e : Nat) :
    real (OfScientific.ofScientific m s e) = OfScientific.ofScientific m s e

instance : Unrounded Rat where
  real q := q
  real_injective := Rat.cast_injective
  real_add := Rat.cast_add
  real_sub := Rat.cast_sub
  real_lt _ _ := Rat.cast_lt
  real_le _ _ := Rat.cast_le
  real_ofScientific := Rat.cast_ofScientific

namespace Unrounded

@[simp] theorem real_rat (q : Rat) : real q = (q : ℝ) := rfl

variable {α : Type} [Scalar α] [Unrounded α]

@[simp] theorem real_zero : real (0.0 : α) = 0 := by
  rw [real_ofScientific]
  norm_num

@[simp] theorem real_minClipDuration : real (minClipDuration : α) = 1 / 10 := by
  rw [minClipDuration, real_ofScientific]
  norm_num

@[simp] theorem real_larger (a b : α) : real (Scalar.larger a b) = max (real a) (real b) := by
  unfold Scalar.larger
  split
  · next h => exact (max_eq_right ((real_lt a b).2 h).le).symm
  · next h => exact (max_eq_left (not_lt.1 (mt (real_lt a b).1 h))).symm

@[simp] theorem real_smaller (a b : α) : real (Scalar.smaller a b) = min (real a) (real b) := by
  unfold Scalar.smaller
  split
  · next h => exact (min_eq_right ((real_lt b a).2 h).le).symm
  · next h => exact (min_eq_left (not_lt.1 (mt (real_lt b a).1 h))).symm

attribute [simp] real_add real_sub

end Unrounded

end Montage
