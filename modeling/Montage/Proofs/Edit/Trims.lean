/-
The trims of a clip, clamped.

The trim at the start takes what it can of a clip, but for the least visible length, and the one
at the end what it can of what is left (`real_clampTrims`). So both are kept where they leave
enough; else the one at the end gives way first, and no more is given back than is needed
(`clampTrims_clamped`). This is so in every arithmetic that does not round, for trims of any sign
and size.
-/
import Mathlib.Tactic.Linarith
import Mathlib.Tactic.Ring
import Montage.Edit.Clips
import Montage.Proofs.Unrounded

namespace Montage

/-! ## Sharing a room -/

/-- What one who asks for some of a room takes of it. -/
structure Takes (room asked taken : ℝ) : Prop where
  nonneg : 0 ≤ taken
  le_room : taken ≤ room
  le_asked : taken ≤ max 0 asked
  /-- Who gets less than is asked for gets all there is. -/
  full : taken < max 0 asked → taken = room

theorem takes_min {room : ℝ} (hroom : 0 ≤ room) (asked : ℝ) :
    Takes room asked (min (max 0 asked) room) where
  nonneg := le_min (le_max_left _ _) hroom
  le_room := min_le_right _ _
  le_asked := min_le_left _ _
  full h := min_eq_right (le_of_not_ge fun hle => h.ne (min_eq_left hle))

/-- Who asks for no more than there is gets it. -/
theorem Takes.all {room asked taken : ℝ} (h : Takes room asked taken) (hroom : max 0 asked ≤ room) :
    taken = max 0 asked := by
  refine le_antisymm h.le_asked (not_lt.1 fun hless => ?_)
  rw [h.full hless] at hless
  exact hroom.not_gt hless

/-- To ask for what was taken is to take it again. -/
theorem Takes.again {room asked taken : ℝ} (h : Takes room asked taken) :
    min (max 0 taken) room = taken := by
  rw [max_eq_right h.nonneg, min_eq_left h.le_room]

/-! ## Trims -/

open Unrounded

variable {α : Type} [Scalar α] [Unrounded α] {raw : α}

/-- The room for the trims of a clip: all but the least visible length. -/
noncomputable def trimRoom (raw : α) : ℝ := real raw - 1 / 10

theorem trimRoom_nonneg (hraw : minClipDuration ≤ raw) : 0 ≤ trimRoom raw := by
  rw [← real_le, real_minClipDuration] at hraw
  exact sub_nonneg.2 hraw

/-- The trim at the start takes what it can of the room, and the one at the end what it can of the rest. -/
theorem real_clampTrims (hraw : minClipDuration ≤ raw) (head tail : α) :
    real (clampTrims raw head tail).1 = min (max 0 (real head)) (trimRoom raw) ∧
      real (clampTrims raw head tail).2 =
        min (max 0 (real tail)) (trimRoom raw - real (clampTrims raw head tail).1) := by
  have hroom : 0 ≤ real raw - 1 / 10 := trimRoom_nonneg hraw
  have hout : 0 ≤ max 0 (real tail) := le_max_left _ _
  have hpos (x : α) : 0.0 < x ↔ 0 < real x := by rw [← real_lt, real_zero]
  simp only [clampTrims, shareTrims, hpos, trimRoom, real_add, real_sub, real_larger, real_smaller,
    real_zero, real_minClipDuration]
  split_ifs with hexcess hleft <;> simp only [real_sub, real_larger, real_smaller, real_add,
    real_zero, real_minClipDuration]
  all_goals
    generalize max 0 (real head) = a at *
    generalize max 0 (real tail) = b at *
    generalize real raw = r at *
  · -- Even with the trim at the end given back whole too little is left.
    have hb : b < a + b + 1 / 10 - r := by
      by_contra hle
      rw [min_eq_right (not_lt.1 hle), sub_self] at hleft
      exact lt_irrefl 0 hleft
    rw [min_eq_left hb.le, max_eq_right (by linarith), min_eq_right (by linarith : r - 1 / 10 ≤ a)]
    refine ⟨by ring, ?_⟩
    rw [min_eq_right (by linarith)]
    ring
  · -- The trim at the end gives back all that is too much.
    have hb : a + b + 1 / 10 - r ≤ b := by
      by_contra hlt
      rw [min_eq_left (not_le.1 hlt).le] at hleft
      exact hleft (by linarith)
    rw [min_eq_right hb, min_eq_left (by linarith : a ≤ r - 1 / 10), min_eq_right (by linarith)]
    exact ⟨rfl, by ring⟩
  · rw [min_eq_left (by linarith : a ≤ r - 1 / 10), min_eq_left (by linarith)]
    exact ⟨rfl, rfl⟩

/-! ## What is clamped, over the reals too -/

open Classical in
/-- The real numbers as a number format. One that is no rational has no exact value. -/
noncomputable instance : Scalar ℝ where
  decLt := inferInstance
  decLe := inferInstance
  beq a b := decide (a = b)
  exact x := if h : ∃ q : Rat, (q : ℝ) = x then .finite h.choose else .undefined
  nearest q := some (q : ℝ)
  infinity _ := none
  notANumber := none
  decimal digits exponent := decimalValue digits exponent
  ofBool b := if b then 1 else 0
  plain x := x

noncomputable instance : Unrounded ℝ where
  real := id
  real_injective := Function.injective_id
  real_add _ _ := rfl
  real_sub _ _ := rfl
  real_lt _ _ := Iff.rfl
  real_le _ _ := Iff.rfl
  real_ofScientific _ _ _ := rfl

/-- What becomes of the trims that are asked for of a clip of some length. -/
structure TrimsClamped (raw head tail : α) (trims : α × α) : Prop where
  trimIn_nonneg : 0.0 ≤ trims.1
  trimOut_nonneg : 0.0 ≤ trims.2
  visible : minClipDuration ≤ raw - trims.1 - trims.2
  trimIn_le : trims.1 ≤ Scalar.larger 0.0 head
  trimOut_le : trims.2 ≤ Scalar.larger 0.0 tail
  /-- Trims that leave enough are kept, once they are raised to zero. -/
  kept : minClipDuration ≤ raw - Scalar.larger 0.0 head - Scalar.larger 0.0 tail →
    trims = (Scalar.larger 0.0 head, Scalar.larger 0.0 tail)
  /-- The trim at the end gives way first. -/
  trimOut_first : trims.1 < Scalar.larger 0.0 head → trims.2 = 0.0
  /-- No more is given back than is needed. -/
  least : trims.1 < Scalar.larger 0.0 head ∨ trims.2 < Scalar.larger 0.0 tail →
    raw - trims.1 - trims.2 = minClipDuration
  settled : clampTrims raw trims.1 trims.2 = trims

/-- **Trims are clamped to what a clip has room for**, the one at the end first, and by no more than is
needed. -/
theorem clampTrims_clamped (hraw : minClipDuration ≤ raw) (head tail : α) :
    TrimsClamped raw head tail (clampTrims raw head tail) := by
  obtain ⟨hhead, htail⟩ := real_clampTrims hraw head tail
  obtain ⟨hhead', htail'⟩ :=
    real_clampTrims hraw (clampTrims raw head tail).1 (clampTrims raw head tail).2
  generalize clampTrims raw head tail = trims at *
  have hstart : Takes (trimRoom raw) (real head) (real trims.1) :=
    hhead ▸ takes_min (trimRoom_nonneg hraw) _
  have hend : Takes (trimRoom raw - real trims.1) (real tail) (real trims.2) :=
    htail ▸ takes_min (sub_nonneg.2 hstart.le_room) _
  have hfloor (x : α) : real (Scalar.larger 0.0 x) = max 0 (real x) := by simp
  have hvisible : real (raw - trims.1 - trims.2) - 1 / 10 = trimRoom raw - real trims.1 - real trims.2 := by
    simp only [real_sub, trimRoom]
    ring
  constructor
  case trimIn_nonneg => exact (real_le _ _).1 (real_zero.trans_le hstart.nonneg)
  case trimOut_nonneg => exact (real_le _ _).1 (real_zero.trans_le hend.nonneg)
  case visible =>
    rw [← real_le, real_minClipDuration]
    linarith [hend.le_room]
  case trimIn_le => exact (real_le _ _).1 (hstart.le_asked.trans_eq (hfloor head).symm)
  case trimOut_le => exact (real_le _ _).1 (hend.le_asked.trans_eq (hfloor tail).symm)
  case kept =>
    intro hfit
    rw [← real_le, real_sub, real_sub, hfloor, hfloor, real_minClipDuration] at hfit
    have htail_nonneg : 0 ≤ max 0 (real tail) := le_max_left _ _
    have hin : real trims.1 = max 0 (real head) := hstart.all (by unfold trimRoom; linarith)
    have hout : real trims.2 = max 0 (real tail) := hend.all (by unfold trimRoom; linarith)
    exact Prod.ext (real_injective (hin.trans (hfloor head).symm))
      (real_injective (hout.trans (hfloor tail).symm))
  case trimOut_first =>
    intro hless
    rw [← real_lt, hfloor] at hless
    refine real_injective (le_antisymm ?_ ?_) <;> rw [real_zero]
    · linarith [hstart.full hless, hend.le_room]
    · exact hend.nonneg
  case least =>
    rw [← real_lt trims.1, ← real_lt trims.2, hfloor, hfloor]
    intro hless
    have hout : real trims.2 = trimRoom raw - real trims.1 := by
      rcases hless with hless | hless
      · linarith [hstart.full hless, hend.le_room, hend.nonneg]
      · exact hend.full hless
    refine real_injective ?_
    rw [real_minClipDuration]
    linarith
  case settled =>
    have hin := hhead'.trans hstart.again
    rw [hin] at htail'
    exact Prod.ext (real_injective hin) (real_injective (htail'.trans hend.again))

/-- Where too much is asked for at the end, and what is not there at the start. -/
theorem lopsided_clamped :
    (minClipDuration : Rat) ≤ 2 ∧ clampTrims (2 : Rat) (-1) 3 = (0, 19 / 10) ∧
      TrimsClamped (2 : Rat) (-1) 3 (clampTrims 2 (-1) 3) ∧
      (minClipDuration : ℝ) ≤ 2 ∧ TrimsClamped (2 : ℝ) (-1) 3 (clampTrims 2 (-1) 3) := by
  have hrat : (minClipDuration : Rat) ≤ 2 := by decide +kernel
  have hreal : (minClipDuration : ℝ) ≤ 2 := by norm_num [minClipDuration]
  exact ⟨hrat, by decide +kernel, clampTrims_clamped hrat (-1) 3, hreal, clampTrims_clamped hreal (-1) 3⟩

end Montage
