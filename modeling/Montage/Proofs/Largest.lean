/-
When a rational has no double nearest to it.

The largest finite double is `2^1024 - 2^971`. What is nearer to it than to `2^1024`
is rounded to it, and the rational in the middle between both goes to the even significand, which is
that of `2^1024`. So a rational has no double just when its magnitude is at least this middle
(`Binary64.nearest_eq_none_iff`).
-/
import Mathlib.Algebra.Order.Field.Power
import Montage.Number.Binary64
import Montage.Proofs.Rounding

namespace Montage

namespace Binary64

theorem twoPow_eq (e : Int) : twoPow e = (2 : Rat) ^ e := by
  unfold twoPow
  split
  next h =>
    lift e to Nat using h
    simp
  next h =>
    obtain ⟨k, hk⟩ := Int.exists_eq_neg_ofNat (by omega : e ≤ 0)
    subst hk
    simp

/-- A positive number lies between the powers of two that the lengths of its parts tell. -/
theorem guess_bounds {q : Rat} (hq : 0 < q) :
    let guess : Int := (Nat.log2 q.num.natAbs : Int) - (Nat.log2 q.den : Int)
    (2 : Rat) ^ (guess - 1) ≤ q ∧ q < (2 : Rat) ^ (guess + 1) := by
  intro guess
  have hnum : q.num.natAbs ≠ 0 := by simpa using hq.ne'
  have hden : (0 : Rat) < q.den := by exact_mod_cast q.den_pos
  have hvalue : q * q.den = q.num.natAbs := by
    rw [Rat.mul_den_eq_num, Nat.cast_natAbs, abs_of_pos (Rat.num_pos.2 hq)]
  have hnum_le : (2 : Rat) ^ (Nat.log2 q.num.natAbs) ≤ q.num.natAbs := by
    exact_mod_cast Nat.log2_self_le hnum
  have hnum_lt : (q.num.natAbs : Rat) < 2 ^ (Nat.log2 q.num.natAbs + 1) := by
    exact_mod_cast Nat.lt_log2_self
  have hden_le : (2 : Rat) ^ (Nat.log2 q.den) ≤ q.den := by exact_mod_cast Nat.log2_self_le q.den_nz
  have hden_lt : (q.den : Rat) < 2 ^ (Nat.log2 q.den + 1) := by exact_mod_cast Nat.lt_log2_self
  have hpow (e : Int) (k l : Nat) (h : e + k = l) : (2 : Rat) ^ e * 2 ^ k = 2 ^ l := by
    rw [← zpow_natCast, ← zpow_natCast, ← zpow_add₀ two_ne_zero, h]
  constructor
  · refine le_of_mul_le_mul_right ?_ hden
    calc (2 : Rat) ^ (guess - 1) * q.den
        ≤ 2 ^ (guess - 1) * 2 ^ (Nat.log2 q.den + 1) := by gcongr
      _ = 2 ^ Nat.log2 q.num.natAbs := hpow _ _ _ (by omega)
      _ ≤ q * q.den := hvalue ▸ hnum_le
  · refine lt_of_mul_lt_mul_right ?_ hden.le
    calc q * q.den < 2 ^ (Nat.log2 q.num.natAbs + 1) := hvalue ▸ hnum_lt
      _ = 2 ^ (guess + 1) * 2 ^ Nat.log2 q.den := (hpow _ _ _ (by omega)).symm
      _ ≤ 2 ^ (guess + 1) * q.den := by gcongr

/-- The unit of a positive number is that of its leading bit, or the least one. -/
theorem unitExponent_cases {q : Rat} (hq : 0 < q) : ∃ leading : Int, (2 : Rat) ^ leading ≤ q ∧
    q < (2 : Rat) ^ (leading + 1) ∧ unitExponent q = max (leading - 52) (-1074) := by
  obtain ⟨hle, hlt⟩ := guess_bounds hq
  unfold unitExponent
  dsimp only
  rw [twoPow_eq]
  split
  next h => exact ⟨_, h, hlt, by split <;> omega⟩
  next h =>
    refine ⟨_, hle, ?_, by split <;> omega⟩
    rw [sub_add_cancel]
    exact not_le.1 h

theorem pack_eq_none_iff (significand : Nat) (exponent : Int) (h : significand ≤ 2 * fractions) :
    pack significand exponent = none ↔
      fractions ≤ significand ∧ 972 ≤ exponent ∨ significand = 2 * fractions ∧ 971 ≤ exponent := by
  have hfractions : fractions = 2 ^ 52 := rfl
  unfold pack
  dsimp only
  split_ifs <;> simp <;> omega

/-- The least magnitude that no double is nearest to. -/
def overflow : Rat := 2 ^ 1024 - 2 ^ 970

theorem overflow_eq : overflow = (2 ^ 53 - 1 / 2) * 2 ^ 971 := by
  have h : (2 : Rat) ^ 1024 = 2 ^ 53 * 2 ^ 971 := by rw [← pow_add]
  have h' : (2 : Rat) ^ 971 = 2 * 2 ^ 970 := by rw [← pow_succ']
  rw [overflow, h, sub_mul, h', one_div, inv_mul_cancel_left₀ two_ne_zero]

theorem overflow_bounds : (2 : Rat) ^ 1023 ≤ overflow ∧ overflow ≤ 2 ^ 1024 := by
  have h : (2 : Rat) ^ 1024 = 2 ^ 1023 + 2 ^ 1023 := by rw [← mul_two, ← pow_succ]
  have hle : (2 : Rat) ^ 970 ≤ 2 ^ 1023 := pow_le_pow_right₀ (by norm_num) (by norm_num)
  refine ⟨?_, sub_le_self _ (by positivity)⟩
  rw [overflow, h]
  exact le_sub_iff_add_le.2 (add_le_add_right hle _)

theorem halfEven_scaled_le {q : Rat} {leading : Int} (hlt : q < (2 : Rat) ^ (leading + 1))
    (unit : Int) (h : leading - 52 ≤ unit) : halfEven (q / 2 ^ unit) ≤ 2 ^ 53 := by
  have hcast : (((2 : Int) ^ 53 : Int) : Rat) = 2 ^ (53 : Int) := by norm_num
  refine halfEven_le ?_
  rw [div_lt_iff₀ (by positivity), hcast, ← zpow_add₀ two_ne_zero]
  exact hlt.trans_le (zpow_le_zpow_right₀ (by norm_num) (by omega))

theorem le_halfEven_scaled {q : Rat} {leading : Int} (hle : (2 : Rat) ^ leading ≤ q) :
    2 ^ 52 ≤ halfEven (q / 2 ^ (leading - 52)) := by
  have hcast : (((2 : Int) ^ 52 : Int) : Rat) = 2 ^ (52 : Int) := by norm_num
  refine (le_halfEven_iff (by norm_num) _).2 ((sub_le_self _ (by norm_num)).trans ?_)
  rw [le_div_iff₀ (by positivity), hcast, ← zpow_add₀ two_ne_zero, add_sub_cancel]
  exact hle

theorem nearest_eq_none_iff (q : Rat) : nearest q = none ↔ overflow ≤ |q| := by
  have hbounds := overflow_bounds
  have hpos : (0 : Rat) < 2 ^ 1023 := by positivity
  unfold nearest
  split
  next hzero => simpa [hzero] using hpos.trans_le hbounds.1
  next hne =>
  have hmagnitude : (if q < 0 then -q else q) = |q| := by
    split
    next h => exact (abs_of_neg h).symm
    next h => exact (abs_of_nonneg (not_lt.1 h)).symm
  dsimp only
  rw [Option.map_eq_none_iff, hmagnitude]
  obtain ⟨leading, hle, hlt, hunit⟩ := unitExponent_cases (abs_pos.2 hne)
  generalize |q| = m at *
  have hle53 := halfEven_scaled_le hlt (unitExponent m) (by omega)
  have hfractions : (fractions : Int) = 2 ^ 52 := rfl
  rw [twoPow_eq, pack_eq_none_iff _ _ (by omega)]
  rcases lt_trichotomy leading 1023 with hsmall | rfl | hlarge
  · refine iff_of_false (by omega) (not_le.2 (hlt.trans_le (le_trans ?_ hbounds.1)))
    rw [← zpow_natCast]
    exact zpow_le_zpow_right₀ (by norm_num) (by push_cast; omega)
  · have hunit : unitExponent m = 971 := by omega
    have heven := le_halfEven_iff (n := 2 ^ 53) (by norm_num) (m / 2 ^ (971 : Int))
    rw [le_div_iff₀ (by positivity), Int.cast_pow, Int.cast_ofNat, zpow_ofNat, ← overflow_eq] at heven
    rw [hunit] at hle53 ⊢
    rw [← heven, zpow_ofNat]
    rw [zpow_ofNat] at hle53
    constructor <;> omega
  · have hunit : unitExponent m = leading - 52 := by omega
    have hge := le_halfEven_scaled hle
    rw [hunit]
    refine iff_of_true (.inl (by omega)) (hbounds.2.trans (le_trans ?_ hle))
    rw [← zpow_natCast]
    exact zpow_le_zpow_right₀ (by norm_num) (by push_cast; omega)

end Binary64

end Montage
